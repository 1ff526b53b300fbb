/-
What one pass over the grid draws, read exactly.

# Cells are runs

While time runs forward through one window the samples walk through the
cells of the grid in their order (`Grid.Layout.cell_mono`) and never come
back to one they have left. So the samples of a cell are heard one after
another and make up exactly one run (`increasing_runs`,
`mem_run_of_cell_eq`), whatever batches they came in.

# One bar each

Every run but the last owes one bar at home, at the place of its first
sample and as loud as its loudest (`homeBars_owed`). Runs and cells being
the same, each cell but the one that is still open has one bar, no bar
comes after a bar of a later cell, and the level of a bar counts all
samples that fell into its cell.
-/
import Mathlib.Data.List.Infix
import Mathlib.Data.List.Nodup
import Metrograph.Proofs.Grid.Cells
import Metrograph.Proofs.Waveform.Runs

namespace Metrograph.Waveform

variable {l : Grid.Layout ℚ} {gain : ℚ} {heard : List (Heard ℚ)}
  {run : List (Heard ℚ)} {rs : List (List (Heard ℚ))} {samples : List (Sample ℚ)}

/-- The row and the column of pixels that a bar stands in, rows first. -/
def Bar.cell (b : Bar ℚ) : ℕ ×ₗ ℤ := toLex (b.position.row, b.column)

/-- The bars drawn at home among bars returned by calls. -/
def homeBars (bars : List (Nat × Bar ℚ)) : List (Bar ℚ) :=
  (bars.map Prod.snd).filter fun b => b.kind = .home

-- ================================================================ runs

/-- Samples are placed together exactly if they fall in one cell. -/
theorem place_eq_iff (l : Grid.Layout ℚ) (a b : Heard ℚ) :
    a.place l = b.place l ↔ l.cell a.beat = l.cell b.beat := toLex_inj.symm

/-- The samples of a run fall into an earlier cell than those of another. -/
def Earlier (l : Grid.Layout ℚ) (r r' : List (Heard ℚ)) : Prop :=
  ∀ a ∈ r, ∀ b ∈ r', l.cell a.beat < l.cell b.beat

/-- Every sample is in a run. -/
theorem mem_runs_iff {h : Heard ℚ} : h ∈ heard ↔ ∃ r ∈ runs l heard, h ∈ r := by
  have whole : (runs l heard).flatten = heard := List.flatten_splitBy _ _
  rw [← List.mem_flatten, whole]

/-- The last sample is the last of the last run. -/
theorem getLast?_heard {front : List (List (Heard ℚ))} (cut : runs l heard = front ++ [run]) :
    heard.getLast? = run.getLast? := by
  have mem : run ∈ runs l heard := by simp [cut]
  have whole : heard = front.flatten ++ run := by
    rw [(List.splitBy_eq_iff.mp cut).1]
    simp
  rw [whole, List.getLast?_append_of_ne_nil _ (ne_nil_of_mem_runs mem)]

/-- A last run that goes on in its cell still lies after all others. -/
theorem earlier_lengthened {front : List (List (Heard ℚ))} {first x : Heard ℚ}
    {more : List (Heard ℚ)} (sorted : (front ++ [first :: more]).Pairwise (Earlier l))
    (here : ∀ a ∈ first :: more ++ [x], a.place l = first.place l) :
    (front ++ [first :: more ++ [x]]).Pairwise (Earlier l) := by
  obtain ⟨earlier, -, behind⟩ := List.pairwise_append.mp sorted
  refine List.pairwise_append.mpr ⟨earlier, List.pairwise_singleton _ _, ?_⟩
  intro r hr r' hr' a ha b hb
  obtain rfl := List.mem_singleton.mp hr'
  have before := behind r hr _ (List.mem_singleton_self _) a ha first List.mem_cons_self
  rwa [(place_eq_iff l b first).mp (here b hb)]

/-- A run that begins after the cell of the last run lies after all runs. -/
theorem earlier_begun {front : List (List (Heard ℚ))} {first x : Heard ℚ}
    {more : List (Heard ℚ)} (sorted : (front ++ [first :: more]).Pairwise (Earlier l))
    (here : ∀ a ∈ first :: more, a.place l = first.place l)
    (later : l.cell first.beat < l.cell x.beat) :
    (front ++ [first :: more] ++ [[x]]).Pairwise (Earlier l) := by
  refine List.pairwise_append.mpr ⟨sorted, List.pairwise_singleton _ _, ?_⟩
  intro r hr r' hr' a ha b hb
  rw [List.mem_singleton.mp hr'] at hb
  rw [List.mem_singleton.mp hb]
  rcases List.mem_append.mp hr with front_run | last_run
  · obtain ⟨-, -, behind⟩ := List.pairwise_append.mp sorted
    exact (behind r front_run _ (List.mem_singleton_self _) a ha first
      List.mem_cons_self).trans later
  · rw [List.mem_singleton.mp last_run] at ha
    rw [(place_eq_iff l a first).mp (here a ha)]
    exact later

/-- If no sample falls into an earlier cell than one before it, each run lies in
a later cell than the runs before it. -/
theorem increasing_runs (ordered : heard.Pairwise fun a b => l.cell a.beat ≤ l.cell b.beat) :
    (runs l heard).Pairwise (Earlier l) := by
  induction heard using List.reverseRecOn with
  | nil => exact .nil
  | append_singleton heard x ih =>
      obtain ⟨before, -, last⟩ := List.pairwise_append.mp ordered
      have sorted := ih before
      rcases List.eq_nil_or_concat' (runs l heard) with silent | ⟨front, run, cut⟩
      · obtain rfl : heard = [] := List.splitBy_eq_nil.mp silent
        exact List.pairwise_singleton _ _
      · have mem : run ∈ runs l heard := by simp [cut]
        obtain ⟨first, more, rfl⟩ := List.exists_cons_of_ne_nil (ne_nil_of_mem_runs mem)
        have here : ∀ a ∈ first :: more, a.place l = first.place l := fun a => place_eq_first cut
        by_cases same : first.place l = x.place l
        · rw [runs_lengthened cut fun a ha => (here a ha).trans same]
          rw [cut] at sorted
          refine earlier_lengthened sorted fun a ha => ?_
          rcases List.mem_append.mp ha with old | new
          · exact here a old
          · rw [List.mem_singleton.mp new, same]
        · have apart : ∀ a ∈ heard.getLast?, a.place l ≠ x.place l := by
            intro a ha
            rw [getLast?_heard cut] at ha
            rw [here a (List.mem_of_mem_getLast? ha)]
            exact same
          have heard_first : first ∈ heard := mem_runs_iff.mpr ⟨_, mem, List.mem_cons_self⟩
          have no_earlier := last first heard_first x (List.mem_singleton_self x)
          rw [runs_begun apart, cut]
          rw [cut] at sorted
          exact earlier_begun sorted here
            (no_earlier.lt_of_ne fun equal => same ((place_eq_iff l first x).mpr equal))

/-- The samples of two runs fall into different cells. -/
def Apart (l : Grid.Layout ℚ) (r r' : List (Heard ℚ)) : Prop :=
  ∀ a ∈ r, ∀ b ∈ r', l.cell a.beat ≠ l.cell b.beat

instance : Std.Symm (Apart l) := ⟨fun _ _ apart b hb a ha same => apart a ha b hb same.symm⟩

/-- A sample that falls into the cell of a run belongs to the run. -/
theorem mem_run_of_cell_eq (sorted : (runs l heard).Pairwise (Earlier l))
    (mem : run ∈ runs l heard) {a b : Heard ℚ} (ha : a ∈ run) (hb : b ∈ heard)
    (same : l.cell b.beat = l.cell a.beat) : b ∈ run := by
  obtain ⟨run', mem', hb'⟩ := (mem_runs_iff (l := l)).mp hb
  have apart : (runs l heard).Pairwise (Apart l) := sorted.imp fun earlier a ha b hb =>
    (earlier a ha b hb).ne
  by_contra other
  have different : run' ≠ run := by
    rintro rfl
    exact other hb'
  exact apart.forall mem' mem different b hb' a ha same

-- ================================================================ bars

/-- The magnitudes in a run are those of all samples that fall into its cell. -/
theorem magnitudes_of_cell (sorted : (runs l heard).Pairwise (Earlier l))
    (mem : run ∈ runs l heard) {a : Heard ℚ} (ha : a ∈ run) :
    { m | ∃ h ∈ heard, l.cell h.beat = l.cell a.beat ∧ |h.amplitude| = m }
      = { m | ∃ h ∈ run, |h.amplitude| = m } := by
  ext m
  constructor
  · rintro ⟨h, hh, same, eq⟩
    exact ⟨h, mem_run_of_cell_eq sorted mem ha hh same, eq⟩
  · rintro ⟨h, hh, eq⟩
    exact ⟨h, mem_runs_iff.mpr ⟨run, mem, hh⟩,
      (place_eq_iff l h a).mp (place_eq_of_mem mem hh ha), eq⟩

/-- The beat that opened a run. -/
def firstBeat (run : List (Heard ℚ)) : ℚ := (run.head?.map fun h => h.beat).getD 0

/-- The bar of a run at home. -/
def homeBar (l : Grid.Layout ℚ) (gain : ℚ) (run : List (Heard ℚ)) : Bar ℚ :=
  ⟨l.home (firstBeat run), (l.home (firstBeat run)).column,
    Scalar.clampUnit (loudest run * gain), .home⟩

/-- The bar of a run stands in the cell of its samples. -/
theorem cell_homeBar (mem : run ∈ runs l heard) {a : Heard ℚ} (ha : a ∈ run) :
    (homeBar l gain run).cell = l.cell a.beat := by
  obtain ⟨first, more, rfl⟩ := List.exists_cons_of_ne_nil (ne_nil_of_mem_runs mem)
  exact (place_eq_iff l first a).mp (place_eq_of_mem mem List.mem_cons_self ha)

/-- Of the bars that a run owes one is drawn at home. -/
theorem homeBars_closing {next : List (Heard ℚ)} (full : run ≠ []) (full' : next ≠ [])
    (gains : ∀ h ∈ next, h.gain = gain) :
    homeBars (closing l run next) = [homeBar l gain run] := by
  obtain ⟨first, more, rfl⟩ := List.exists_cons_of_ne_nil full
  obtain ⟨h, others, rfl⟩ := List.exists_cons_of_ne_nil full'
  have force := gains h List.mem_cons_self
  subst force
  unfold homeBars closing barsAt
  dsimp only [List.head?_cons]
  rw [List.map_map]
  split <;> rfl

/-- The bars drawn at home are those of all runs but the last, in order. -/
theorem homeBars_owed (full : ∀ r ∈ rs, r ≠ []) (gains : ∀ r ∈ rs, ∀ h ∈ r, h.gain = gain) :
    homeBars (owed l rs) = rs.dropLast.map (homeBar l gain) := by
  induction rs with
  | nil => rfl
  | cons r rest ih =>
      cases rest with
      | nil => rfl
      | cons next rest =>
          have following := ih (fun r hr => full r (List.mem_cons_of_mem _ hr))
            (fun r hr => gains r (List.mem_cons_of_mem _ hr))
          have first : homeBars (closing l r next) = [homeBar l gain r] :=
            homeBars_closing (full r List.mem_cons_self)
              (full next (List.mem_cons_of_mem _ List.mem_cons_self))
              (gains next (List.mem_cons_of_mem _ List.mem_cons_self))
          rw [owed_cons_cons, List.dropLast_cons_cons, List.map_cons, ← following]
          unfold homeBars at first ⊢
          rw [List.map_append, List.filter_append, first]
          rfl

theorem clampUnit_eq (x : ℚ) : Scalar.clampUnit x = max 0 (min x 1) := by
  show (if x < 0 then 0 else if 1 < x then 1 else x) = _
  split_ifs with below above
  · rw [min_eq_left (by linarith), max_eq_left below.le]
  · rw [min_eq_right above.le, max_eq_right zero_le_one]
  · rw [min_eq_left (not_lt.mp above), max_eq_right (not_lt.mp below)]

theorem magnitude_eq (x : ℚ) : Scalar.magnitude x = |x| := by
  show (if x < 0 then -x else x) = _
  split_ifs with below
  · exact (abs_of_neg below).symm
  · exact (abs_of_nonneg (not_lt.mp below)).symm

/-- The loudest magnitude of a run is the greatest of its magnitudes. -/
theorem isGreatest_loudest (full : run ≠ []) :
    IsGreatest { m | ∃ h ∈ run, |h.amplitude| = m } (loudest run) := by
  obtain ⟨above, -, reached⟩ := loudest_greatest run
  have bound : ∀ h ∈ run, |h.amplitude| ≤ loudest run := by
    intro h hh
    rw [← magnitude_eq]
    exact not_lt.mp (above h hh)
  refine ⟨?_, fun m ⟨h, hh, eq⟩ => eq ▸ bound h hh⟩
  rcases reached with silent | ⟨h, hh, eq⟩
  · -- nothing is louder than silence, so the first sample is silent
    obtain ⟨first, hfirst⟩ := List.exists_mem_of_ne_nil run full
    refine ⟨first, hfirst, le_antisymm (bound first hfirst) ?_⟩
    rw [silent]
    exact abs_nonneg _
  · exact ⟨h, hh, by rw [eq, magnitude_eq]⟩

-- ============================================================= batches

namespace Account

/-- After some batches the account has all their samples, at one gain. -/
theorem recordAll_ingest (a : Account ℚ) (batches : List (List (Sample ℚ)))
    (gains : ∀ h ∈ a.heard, h.gain = a.gain) :
    (a.recordAll (batches.map .ingest)).layout = a.layout
      ∧ (a.recordAll (batches.map .ingest)).earlier = a.earlier
      ∧ (a.recordAll (batches.map .ingest)).heard.map Heard.toSample
        = a.heard.map Heard.toSample ++ batches.flatten
      ∧ ∀ h ∈ (a.recordAll (batches.map .ingest)).heard, h.gain = a.gain := by
  induction batches generalizing a with
  | nil => exact ⟨rfl, rfl, (List.append_nil _).symm, gains⟩
  | cons samples rest ih =>
      have finite : samples.filter Sample.isFinite = samples :=
        List.filter_eq_self.mpr fun _ _ => rfl
      have heard : (a.record (.ingest samples)).heard
          = a.heard ++ samples.map fun s => ⟨s, a.calls, a.gain⟩ := by
        show a.heard ++ (samples.filter Sample.isFinite).map _ = _
        rw [finite]
      have fed : ∀ h ∈ (a.record (.ingest samples)).heard, h.gain = a.gain := by
        intro h hh
        rw [heard] at hh
        rcases List.mem_append.mp hh with old | new
        · exact gains h old
        · obtain ⟨s, -, rfl⟩ := List.mem_map.mp new
          rfl
      obtain ⟨layout, earlier, all, force⟩ := ih (a.record (.ingest samples)) fed
      refine ⟨layout, earlier, ?_, force⟩
      show ((a.record (.ingest samples)).recordAll _).heard.map Heard.toSample = _
      rw [all, heard, List.map_append, List.map_map, List.flatten_cons, List.append_assoc]
      congr 2
      exact List.map_id samples

end Account

namespace PeakHold

/-- The bars that a new downsampler draws at home for some batches. -/
def drawnAtHome (l : Grid.Layout ℚ) (gain : ℚ) (batches : List (List (Sample ℚ))) :
    List (Bar ℚ) :=
  homeBars ((ofLayout l gain).performAll 0 (batches.map .ingest)).1

/-- They are the bars of all runs of the samples but the last. -/
theorem drawnAtHome_eq (l : Grid.Layout ℚ) (gain : ℚ) (batches : List (List (Sample ℚ))) :
    ∃ heard : List (Heard ℚ), batches.flatten = heard.map Heard.toSample
      ∧ drawnAtHome l gain batches = (runs l heard).dropLast.map (homeBar l gain) := by
  obtain ⟨layout, earlier, all, gains⟩ :=
    (Account.start l gain).recordAll_ingest batches (fun _ none => absurd none List.not_mem_nil)
  obtain ⟨-, made⟩ := agrees_performAll (agrees_start l gain) (batches.map .ingest)
  refine ⟨_, all.symm, ?_⟩
  have returned : ((ofLayout l gain).performAll 0 (batches.map .ingest)).1
      = ((Account.start l gain).recordAll (batches.map .ingest)).bars := made.symm
  rw [drawnAtHome, returned, Account.bars, earlier, layout]
  refine homeBars_owed (fun r => ne_nil_of_mem_runs) fun r hr h hh => ?_
  exact gains h (mem_runs_iff.mpr ⟨r, hr, hh⟩)

/-- The cells of the bars of increasing runs increase. -/
theorem increasing_bars (sorted : (runs l heard).Pairwise (Earlier l)) :
    ((runs l heard).dropLast.map (homeBar l gain)).Pairwise fun b b' => b.cell < b'.cell := by
  rw [List.pairwise_map]
  refine (sorted.sublist (List.dropLast_sublist _)).imp_of_mem fun {r r'} hr hr' before => ?_
  have mem := List.mem_of_mem_dropLast hr
  have mem' := List.mem_of_mem_dropLast hr'
  obtain ⟨a, ha⟩ := List.exists_mem_of_ne_nil r (ne_nil_of_mem_runs mem)
  obtain ⟨b, hb⟩ := List.exists_mem_of_ne_nil r' (ne_nil_of_mem_runs mem')
  rw [cell_homeBar mem ha, cell_homeBar mem' hb]
  exact before a ha b hb

/-- A cell that samples fall into has one bar, unless the last of them falls
into it. -/
theorem count_cell (sorted : (runs l heard).Pairwise (Earlier l)) {last h : Heard ℚ}
    (latest : last ∈ heard.getLast?) (hh : h ∈ heard) :
    (((runs l heard).dropLast.map (homeBar l gain)).map Bar.cell).count (l.cell h.beat)
      = if l.cell h.beat = l.cell last.beat then 0 else 1 := by
  obtain ⟨run, mem, in_run⟩ := (mem_runs_iff (l := l)).mp hh
  rcases List.eq_nil_or_concat' (runs l heard) with silent | ⟨front, open_run, cut⟩
  · rw [silent] at mem
    cases mem
  have open_mem : open_run ∈ runs l heard := by simp [cut]
  have in_open : last ∈ open_run := by
    rw [getLast?_heard cut] at latest
    exact List.mem_of_mem_getLast? latest
  split_ifs with same
  · -- the bars of all other runs stand in earlier cells
    refine List.count_eq_zero.mpr fun drawn => ?_
    rw [List.map_map, cut, List.dropLast_concat] at drawn
    obtain ⟨r, hr, equal⟩ := List.mem_map.mp drawn
    have r_mem : r ∈ runs l heard := by simp [cut, hr]
    obtain ⟨a, ha⟩ := List.exists_mem_of_ne_nil r (ne_nil_of_mem_runs r_mem)
    rw [cut] at sorted
    obtain ⟨-, -, behind⟩ := List.pairwise_append.mp sorted
    have before := behind r hr _ (List.mem_singleton_self _) a ha last in_open
    have standing : (homeBar l gain r).cell = l.cell h.beat := equal
    rw [cell_homeBar r_mem ha, same] at standing
    exact before.ne standing
  · have closed : run ∈ (runs l heard).dropLast := by
      rw [cut] at mem ⊢
      rw [List.dropLast_concat]
      rcases List.mem_append.mp mem with earlier | only
      · exact earlier
      · rw [List.mem_singleton.mp only] at in_run
        exact absurd ((place_eq_iff l h last).mp (place_eq_of_mem open_mem in_run in_open)) same
    refine List.count_eq_one_of_mem ?_ ?_
    · exact (List.pairwise_map.mpr (increasing_bars sorted)).imp ne_of_lt
    · have standing : (homeBar l gain run).cell = l.cell h.beat := cell_homeBar mem in_run
      rw [← standing]
      exact List.mem_map_of_mem (List.mem_map_of_mem closed)

/-- In one pass over the grid, whatever batches its samples come in, bars are
drawn in the order of the cells. Every cell that samples fall into but the
last has one bar, as loud as the loudest of all of them, and no other cell
has any. -/
theorem one_bar_per_cell (l : Grid.Layout ℚ) (gain : ℚ) (k : ℤ)
    (batches : List (List (Sample ℚ)))
    (pass : ∀ s ∈ batches.flatten, k * l.window ≤ s.beat ∧ s.beat < (k + 1) * l.window)
    (forward : batches.flatten.Pairwise fun s t => s.beat ≤ t.beat) :
    (drawnAtHome l gain batches).Pairwise (fun b b' => b.cell < b'.cell)
      ∧ (∀ b ∈ drawnAtHome l gain batches, ∃ s ∈ batches.flatten, l.cell s.beat = b.cell)
      ∧ ∀ last ∈ batches.flatten.getLast?, ∀ s ∈ batches.flatten,
        ((drawnAtHome l gain batches).map Bar.cell).count (l.cell s.beat)
          = (if l.cell s.beat = l.cell last.beat then 0 else 1)
        ∧ ∃ peak, IsGreatest
            { m | ∃ t ∈ batches.flatten, l.cell t.beat = l.cell s.beat ∧ |t.amplitude| = m } peak
          ∧ ∀ b ∈ drawnAtHome l gain batches, b.cell = l.cell s.beat →
            b.level = max 0 (min (gain * peak) 1) := by
  obtain ⟨heard, all, drawn⟩ := drawnAtHome_eq l gain batches
  have ordered : batches.flatten.Pairwise fun s t => l.cell s.beat ≤ l.cell t.beat :=
    forward.imp_of_mem fun hs ht le => Grid.Layout.cell_mono (pass _ hs).1 le (pass _ ht).2
  rw [all, List.pairwise_map] at ordered
  have sorted := increasing_runs ordered
  rw [all, drawn]
  refine ⟨increasing_bars sorted, fun b hb => ?_, fun final latest s hs => ?_⟩
  · obtain ⟨run, closed, rfl⟩ := List.mem_map.mp hb
    have mem := List.mem_of_mem_dropLast closed
    obtain ⟨a, ha⟩ := List.exists_mem_of_ne_nil run (ne_nil_of_mem_runs mem)
    exact ⟨a.toSample, List.mem_map_of_mem (mem_runs_iff.mpr ⟨run, mem, ha⟩),
      (cell_homeBar mem ha).symm⟩
  · rw [List.getLast?_map] at latest
    obtain ⟨last, final_heard, rfl⟩ := Option.map_eq_some_iff.mp latest
    obtain ⟨h, hh, rfl⟩ := List.mem_map.mp hs
    obtain ⟨run, mem, in_run⟩ := (mem_runs_iff (l := l)).mp hh
    have samples : { m | ∃ t ∈ heard.map Heard.toSample,
        l.cell t.beat = l.cell h.beat ∧ |t.amplitude| = m }
        = { m | ∃ t ∈ heard, l.cell t.beat = l.cell h.beat ∧ |t.amplitude| = m } := by
      simp only [List.mem_map, exists_exists_and_eq_and]
    refine ⟨count_cell sorted final_heard hh, loudest run, ?_, fun b hb same => ?_⟩
    · rw [samples, magnitudes_of_cell sorted mem in_run]
      exact isGreatest_loudest (ne_nil_of_mem_runs mem)
    · obtain ⟨run', closed, rfl⟩ := List.mem_map.mp hb
      have mem' := List.mem_of_mem_dropLast closed
      obtain ⟨a, ha⟩ := List.exists_mem_of_ne_nil run' (ne_nil_of_mem_runs mem')
      rw [cell_homeBar mem' ha] at same
      -- both runs hold all samples of the cell, so they are equally loud
      have own := magnitudes_of_cell sorted mem' ha
      rw [same, magnitudes_of_cell sorted mem in_run] at own
      have equal := (isGreatest_loudest (ne_nil_of_mem_runs mem')).unique
        (own ▸ isGreatest_loudest (ne_nil_of_mem_runs mem))
      show Scalar.clampUnit (loudest run' * gain) = _
      rw [clampUnit_eq, equal, mul_comm]

/-- Two rows of two beats, ten pixels each. -/
def twoRows : Grid.Layout ℚ := ⟨⟨[2, 2], 0, 20, 10⟩, by decide +kernel⟩

/-- Two batches in the second window, the first of which ends within a cell. -/
def cutCell : List (List (Sample ℚ)) :=
  [[⟨401 / 100, 1 / 10⟩, ⟨402 / 100, -3 / 10⟩],
    [⟨405 / 100, 2 / 10⟩, ⟨415 / 100, 9 / 10⟩, ⟨6, 0⟩]]

/-- A cell that is cut by a batch still has one bar. -/
theorem one_bar_per_cell_cut :
    (∀ s ∈ cutCell.flatten,
      ((1 : ℤ) : ℚ) * twoRows.window ≤ s.beat ∧ s.beat < ((1 : ℤ) + 1) * twoRows.window)
      ∧ (cutCell.flatten.Pairwise fun s t => s.beat ≤ t.beat)
      ∧ (drawnAtHome twoRows 2 cutCell).map (fun b => (b.cell, b.level))
        = [(toLex (0, 0), 6 / 10), (toLex (0, 1), 1)]
      ∧ ((drawnAtHome twoRows 2 cutCell).map Bar.cell).count (twoRows.cell (405 / 100)) = 1 := by
  have pass : ∀ s ∈ cutCell.flatten,
      ((1 : ℤ) : ℚ) * twoRows.window ≤ s.beat ∧ s.beat < ((1 : ℤ) + 1) * twoRows.window := by
    decide +kernel
  have forward : cutCell.flatten.Pairwise fun s t => s.beat ≤ t.beat := by decide +kernel
  obtain ⟨-, -, each⟩ := one_bar_per_cell twoRows 2 1 cutCell pass forward
  obtain ⟨once, -⟩ := each ⟨6, 0⟩ rfl ⟨405 / 100, 2 / 10⟩ (by simp [cutCell])
  have other : twoRows.cell (405 / 100) ≠ twoRows.cell 6 := by decide +kernel
  rw [if_neg other] at once
  exact ⟨pass, forward, by decide +kernel, once⟩

end PeakHold

end Metrograph.Waveform
