/-
Which texts name a key.

# Spellings

A name is words in lower case with underscores between them. In a spelling
of the name each underscore may have become a hyphen, or have made the
letter after it a capital, whatever became of the others (`Joins`); and the
spelling may begin with a capital (`Spells`).

# Undoing them

Reading puts an underscore before every capital but the first character,
and one for every hyphen, so it undoes what made the spelling. It undoes
nothing else: where reading a text comes to a name, the letter after an
underscore of the name stands in the text either behind what became of the
underscore or for both of them (`normalize_eq_iff`). The induction goes
along the text one way and along the spelling the other; that an underscore
of a name has a letter after it (`isWords`) is what keeps two joints from
running into one another.
-/
import Metrograph.Proofs.Config.Soundness
import Metrograph.Proofs.Text.Trimming

namespace Metrograph.Config

open Text (ne_of_kind)

-- ============================================================== spellings

/-- Words in lower case with single underscores before all of them, but the one
that the characters begin in the middle of. -/
def isWords : List Char → Bool
  | [] => true
  | '_' :: c :: rest => c.isLower && isWords rest
  | c :: rest => c.isLower && isWords rest

/-- The ways of writing what comes after the first letter of a name: each
underscore with the letter after it as it is, as a hyphen with the letter, or
as the capital of the letter. -/
inductive Joins : List Char → List Char → Prop
  | nil : Joins [] []
  | letter {c : Char} {name text : List Char} (inside : c ≠ '_') (rest : Joins name text) :
      Joins (c :: name) (c :: text)
  | underscore {c : Char} {name text : List Char} (rest : Joins name text) :
      Joins ('_' :: c :: name) ('_' :: c :: text)
  | hyphen {c : Char} {name text : List Char} (rest : Joins name text) :
      Joins ('_' :: c :: name) ('-' :: c :: text)
  | capital {c : Char} {name text : List Char} (rest : Joins name text) :
      Joins ('_' :: c :: name) (c.toUpper :: text)

/-- The ways of writing a name. -/
inductive Spells : List Char → List Char → Prop
  | plain {name text : List Char} (joined : Joins name text) : Spells name text
  | capital {c : Char} {name text : List Char} (joined : Joins name (c :: text)) :
      Spells name (c.toUpper :: text)

-- ================================================================ letters

/-- The letters from `a` to `z`. -/
def letters : List Char := (List.range' 97 26).map Char.ofNat

/-- Their capitals. -/
def capitals : List Char := (List.range' 65 26).map Char.ofNat

/-- A lower-case letter is one of the letters. -/
theorem mem_letters {c : Char} (lower : c.isLower = true) : c ∈ letters := by
  obtain ⟨least, most⟩ := (Bool.and_eq_true _ _).mp lower
  have above : 97 ≤ c.toNat := of_decide_eq_true least
  have below : c.toNat ≤ 122 := of_decide_eq_true most
  refine List.mem_map.mpr ⟨c.toNat, List.mem_range'_1.mpr ?_, Char.ofNat_toNat c⟩
  omega

theorem mem_capitals {c : Char} (upper : c.isUpper = true) : c ∈ capitals := by
  obtain ⟨least, most⟩ := of_decide_eq_true upper
  have above : 65 ≤ c.toNat := least
  have below : c.toNat ≤ 90 := most
  refine List.mem_map.mpr ⟨c.toNat, List.mem_range'_1.mpr ?_, Char.ofNat_toNat c⟩
  omega

theorem isUpper_of_isLower {c : Char} (lower : c.isLower = true) : c.isUpper = false := by
  have all : (letters.all fun d => !d.isUpper) = true := by decide
  exact (Bool.not_eq_true' _).mp (List.all_eq_true.mp all c (mem_letters lower))

theorem isUpper_toUpper {c : Char} (lower : c.isLower = true) : c.toUpper.isUpper = true := by
  have all : (letters.all fun d => d.toUpper.isUpper) = true := by decide
  exact List.all_eq_true.mp all c (mem_letters lower)

theorem toLower_toUpper {c : Char} (lower : c.isLower = true) : c.toUpper.toLower = c := by
  have all : (letters.all fun d => d.toUpper.toLower == d) = true := by decide
  exact beq_iff_eq.mp (List.all_eq_true.mp all c (mem_letters lower))

theorem toUpper_toLower {c : Char} (upper : c.isUpper = true) : c.toLower.toUpper = c := by
  have all : (capitals.all fun d => d.toLower.toUpper == d) = true := by decide
  exact beq_iff_eq.mp (List.all_eq_true.mp all c (mem_capitals upper))

-- ================================================================== words

/-- Words go on with a letter, or the next one begins. -/
theorem isWords_cons {c : Char} {rest : List Char} (words : isWords (c :: rest) = true) :
    c.isLower = true ∧ isWords rest = true
      ∨ c = '_' ∧ ∃ d more, rest = d :: more ∧ d.isLower = true ∧ isWords more = true := by
  unfold isWords at words
  split at words
  next => cases ‹c :: rest = []›
  next d more same =>
    cases same
    exact Or.inr ⟨rfl, d, more, rfl, (Bool.and_eq_true _ _).mp words⟩
  next same =>
    cases same
    exact Or.inl ((Bool.and_eq_true _ _).mp words)

/-- Behind an underscore the next word begins. -/
theorem isWords_underscore {rest : List Char} (words : isWords ('_' :: rest) = true) :
    ∃ c more, rest = c :: more ∧ c.isLower = true ∧ isWords more = true := by
  rcases isWords_cons words with ⟨lower, -⟩ | ⟨-, next⟩
  · cases lower
  · exact next

/-- A letter in front makes the first word longer. -/
theorem isWords_letter {c : Char} {rest : List Char} (lower : c.isLower = true)
    (words : isWords rest = true) : isWords (c :: rest) = true := by
  have inside : c ≠ '_' := ne_of_kind lower rfl
  unfold isWords
  split
  next => rfl
  next same =>
    cases same
    exact absurd rfl inside
  next same =>
    cases same
    exact (Bool.and_eq_true _ _).mpr ⟨lower, words⟩

/-- A letter within a word is written as it is. -/
theorem Joins.of_letter {c : Char} {name text : List Char} (joined : Joins (c :: name) text)
    (inside : c ≠ '_') : ∃ more, text = c :: more ∧ Joins name more := by
  cases joined with
  | letter _ rest => exact ⟨_, rfl, rest⟩
  | underscore => exact absurd rfl inside
  | hyphen => exact absurd rfl inside
  | capital => exact absurd rfl inside

-- ================================================================ reading

namespace Key

variable {c : Char} {name text rest : List Char}

/-- A capital begins a word. -/
theorem normalize_capital (upper : c.isUpper = true) :
    normalize true (c :: rest) = '_' :: c.toLower :: normalize true rest := by
  rw [normalize, if_pos upper]
  rfl

/-- The first character begins no further word, capital or not. -/
theorem normalize_first_capital (upper : c.isUpper = true) :
    normalize false (c :: rest) = c.toLower :: normalize true rest := by
  rw [normalize, if_pos upper]
  rfl

/-- A hyphen becomes an underscore. -/
theorem normalize_hyphen (started : Bool) :
    normalize started ('-' :: rest) = '_' :: normalize true rest := by
  rw [normalize, if_neg (by decide), if_pos rfl]

/-- Anything else stays. -/
theorem normalize_other (started : Bool) (small : c.isUpper = false) (other : c ≠ '-') :
    normalize started (c :: rest) = c :: normalize true rest := by
  rw [normalize, if_neg (Bool.eq_false_iff.mp small), if_neg other]

theorem normalize_letter (started : Bool) (lower : c.isLower = true) :
    normalize started (c :: rest) = c :: normalize true rest :=
  normalize_other started (isUpper_of_isLower lower) (ne_of_kind lower rfl)

/-- What reading turns into words is a spelling of them. -/
theorem joins_normalize (text : List Char) (words : isWords (normalize true text) = true) :
    Joins (normalize true text) text := by
  induction text with
  | nil => exact .nil
  | cons c rest ih =>
      by_cases upper : c.isUpper = true
      · rw [normalize_capital upper] at words ⊢
        obtain ⟨d, more, same, -, words⟩ := isWords_underscore words
        cases same
        have joined := Joins.capital (c := c.toLower) (ih words)
        rwa [toUpper_toLower upper] at joined
      · by_cases hyphen : c = '-'
        · subst hyphen
          rw [normalize_hyphen] at words ⊢
          obtain ⟨d, more, same, lower, words⟩ := isWords_underscore words
          rw [same] at ih ⊢
          obtain ⟨behind, rfl, joined⟩ :=
            (ih (isWords_letter lower words)).of_letter (ne_of_kind lower rfl)
          exact .hyphen joined
        · rw [normalize_other true (Bool.eq_false_iff.mpr upper) hyphen] at words ⊢
          rcases isWords_cons words with ⟨lower, words⟩ | ⟨rfl, d, more, same, lower, words⟩
          · exact .letter (ne_of_kind lower rfl) (ih words)
          · rw [same] at ih ⊢
            obtain ⟨behind, rfl, joined⟩ :=
              (ih (isWords_letter lower words)).of_letter (ne_of_kind lower rfl)
            exact .underscore joined

/-- Reading undoes what made a spelling of words. -/
theorem normalize_of_joins (joined : Joins name text) (words : isWords name = true) :
    normalize true text = name := by
  induction joined with
  | nil => rfl
  | letter inside _ ih =>
      rcases isWords_cons words with ⟨lower, words⟩ | ⟨underscore, -⟩
      · rw [normalize_letter true lower, ih words]
      · exact absurd underscore inside
  | underscore _ ih =>
      obtain ⟨d, more, same, lower, words⟩ := isWords_underscore words
      cases same
      rw [normalize_other true rfl (by decide), normalize_letter true lower, ih words]
  | hyphen _ ih =>
      obtain ⟨d, more, same, lower, words⟩ := isWords_underscore words
      cases same
      rw [normalize_hyphen, normalize_letter true lower, ih words]
  | capital _ ih =>
      obtain ⟨d, more, same, lower, words⟩ := isWords_underscore words
      cases same
      rw [normalize_capital (isUpper_toUpper lower), toLower_toUpper lower, ih words]

/-- Words that begin with their first letter. -/
def isName : List Char → Bool
  | [] => false
  | c :: rest => c.isLower && isWords rest

/-- Reading a text comes to a name exactly if the text is a spelling of it. -/
theorem normalize_eq_iff (named : isName name = true) :
    normalize false text = name ↔ Spells name text := by
  cases name with
  | nil => cases named
  | cons c name =>
      obtain ⟨lower, words⟩ := (Bool.and_eq_true _ _).mp named
      have inside : c ≠ '_' := ne_of_kind lower rfl
      constructor
      · intro read
        cases text with
        | nil => cases read
        | cons d rest =>
            by_cases upper : d.isUpper = true
            · rw [normalize_first_capital upper] at read
              obtain ⟨rfl, rfl⟩ := List.cons.inj read
              have joined := Joins.letter inside (joins_normalize rest words)
              have spelled := Spells.capital joined
              rwa [toUpper_toLower upper] at spelled
            · by_cases hyphen : d = '-'
              · rw [hyphen, normalize_hyphen] at read
                exact absurd (List.cons.inj read).1.symm inside
              · rw [normalize_other false (Bool.eq_false_iff.mpr upper) hyphen] at read
                obtain ⟨rfl, rfl⟩ := List.cons.inj read
                exact .plain (.letter inside (joins_normalize rest words))
      · intro spelled
        cases spelled with
        | plain joined =>
            obtain ⟨more, rfl, behind⟩ := joined.of_letter inside
            rw [normalize_letter false lower, normalize_of_joins behind words]
        | capital joined =>
            obtain ⟨more, same, behind⟩ := joined.of_letter inside
            obtain ⟨rfl, rfl⟩ := List.cons.inj same
            rw [normalize_first_capital (isUpper_toUpper lower), toLower_toUpper lower,
              normalize_of_joins behind words]

-- =================================================================== keys

/-- Every key has a name. -/
theorem isName_name (key : Key) : isName key.name.toList = true := by
  have all_named : ∀ key ∈ all, isName key.name.toList = true := by decide +kernel
  exact all_named key (mem_all key)

/-- No two keys share a name. -/
theorem name_injective {key other : Key} (same : key.name.toList = other.name.toList) :
    key = other := by
  have apart : ∀ key ∈ all, ∀ other ∈ all, key.name.toList = other.name.toList → key = other := by
    decide +kernel
  exact apart key (mem_all key) other (mem_all other) same

/-- No two keys have a spelling in common. -/
theorem eq_of_spells {key other : Key} {word : List Char} (here : Spells key.name.toList word)
    (there : Spells other.name.toList word) : key = other :=
  name_injective (((normalize_eq_iff (isName_name key)).mpr here).symm.trans
    ((normalize_eq_iff (isName_name other)).mpr there))

/-- A text names a key exactly if it spells the name of the key, white space
around it aside. -/
theorem ofName_eq_some_iff {text : String} {key : Key} :
    ofName text = some key ↔ Spells key.name.toList (Text.trimChars text.toList) := by
  have found_iff (other : Key) :
      decide (other.name.toList = normalize false (Text.trimChars text.toList)) = true
        ↔ Spells other.name.toList (Text.trimChars text.toList) := by
    rw [decide_eq_true_iff, eq_comm, normalize_eq_iff (isName_name other)]
  unfold ofName
  dsimp only
  constructor
  · intro found
    have holds := List.find?_some found
    exact (found_iff key).mp holds
  · intro spelled
    cases found : all.find? fun other => decide
        (other.name.toList = normalize false (Text.trimChars text.toList)) with
    | none =>
        exact absurd ((found_iff key).mpr spelled) (List.find?_eq_none.mp found key (mem_all key))
    | some other =>
        have holds := List.find?_some found
        rw [eq_of_spells ((found_iff other).mp holds) spelled]

end Key

/-- A text names a key exactly if it is a spelling of the key's name with white
space at its ends. No text names two keys; and one that names none is refused
as it was given. -/
theorem readKey_iff_spelling (text : String) :
    (∀ key : Key, readKey text = .ok key
        ↔ ∃ word, Text.Trims word text.toList ∧ Spells key.name.toList word)
      ∧ (∀ (key other : Key) (word : List Char),
        Spells key.name.toList word → Spells other.name.toList word → key = other)
      ∧ (readKey text = .error (.unknownKey text)
        ↔ ∀ (key : Key) (word : List Char),
          Text.Trims word text.toList → ¬ Spells key.name.toList word) := by
  have named (key : Key) : Key.ofName text = some key
      ↔ ∃ word, Text.Trims word text.toList ∧ Spells key.name.toList word := by
    simp only [Text.trims_iff, exists_eq_left', Key.ofName_eq_some_iff]
  unfold readKey
  refine ⟨fun key => ?_, fun key other word => Key.eq_of_spells, ?_⟩
  · rw [← named key]
    cases Key.ofName text with
    | none => exact ⟨nofun, nofun⟩
    | some other => exact ⟨fun same => congrArg some (Except.ok.inj same),
        fun same => congrArg Except.ok (Option.some.inj same)⟩
  · cases found : Key.ofName text with
    | none =>
        refine ⟨fun _ key word trims spelled => ?_, fun _ => rfl⟩
        cases found.symm.trans ((named key).mpr ⟨word, trims, spelled⟩)
    | some key =>
        obtain ⟨word, trims, spelled⟩ := (named key).mp found
        exact ⟨nofun, fun none => absurd spelled (none key word trims)⟩

/-- A capital at the beginning and two kinds of joints, between wide and narrow
white space. -/
theorem readKey_iff_spelling_mixed :
    readKey "\u3000BeatsPer-row\t" = .ok .beatsPerRow
      ∧ Spells Key.beatsPerRow.name.toList "BeatsPer-row".toList
      ∧ ∀ other : Key, Spells other.name.toList "BeatsPer-row".toList → .beatsPerRow = other := by
  obtain ⟨named, unique, -⟩ := readKey_iff_spelling "\u3000BeatsPer-row\t"
  have trims : Text.Trims "BeatsPer-row".toList "\u3000BeatsPer-row\t".toList :=
    Text.trims_iff.mpr (by decide +kernel)
  have spelled : Spells Key.beatsPerRow.name.toList "BeatsPer-row".toList :=
    (Key.normalize_eq_iff (Key.isName_name _)).mp (by decide +kernel)
  exact ⟨(named .beatsPerRow).mpr ⟨_, trims, spelled⟩, spelled,
    fun other => unique .beatsPerRow other _ spelled⟩

end Metrograph.Config
