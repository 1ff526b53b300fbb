/-
The order in which first values are applied.

First values are applied in the order of the names they were given. Where
each key is named once this is of no consequence: a key that is named ends
up with what its one text stands for, and a key that is not keeps what it
held (`holds_applied_member`, `get_applied_of_unnamed`). Neither says
anything about an order, so values in any other order leave the same
settings and, since these can be drawn, the same layout. Only what the
engine was told on the way may differ, as each time it is told the settings
of the moment.
-/
import Metrograph.Proofs.Config.Independence
import Metrograph.Proofs.Settings.Override

namespace Metrograph.Settings

open Config (Key Store)

/-- No two values name one key. -/
def DistinctKeys (values : List (String × String)) : Prop :=
  values.Pairwise fun v w => Key.ofName v.1 ≠ Key.ofName w.1

/-- Every value names a key, and a store takes it as things are. -/
def Takes (store : Store) (values : List (String × String)) : Prop :=
  ∀ v ∈ values, ∃ key, Key.ofName v.1 = some key ∧ (store.setText key v.2).accepted = true

variable {store : Store} {values others : List (String × String)} {key : Key}
  {v : String × String}

/-- What one store takes is acceptable. -/
theorem Takes.acceptable (takes : Takes store values) : Acceptable values := by
  intro v hv
  obtain ⟨key, spelled, accepted⟩ := takes v hv
  obtain ⟨change, taken⟩ := Config.accepted_iff.mp accepted
  obtain ⟨x, -, also, -⟩ := Store.setText_of_taken (s := .standard) taken rfl
  exact ⟨key, spelled, also⟩

/-- Where each key is named once, a key that is named holds what its text stands
for in the end. -/
theorem holds_applied_member (drawn : store.Drawn) (acceptable : Acceptable values)
    (distinct : DistinctKeys values) (member : v ∈ values) (spelled : Key.ofName v.1 = some key) :
    (applyValues store values).store.config.Holds key v.2 := by
  obtain ⟨before, after, rfl⟩ := List.append_of_mem member
  refine holds_applied_last drawn acceptable spelled fun w hw named => ?_
  have apart : Key.ofName v.1 ≠ Key.ofName w.1 :=
    List.rel_of_pairwise_cons (List.pairwise_append.mp distinct).2.1 hw
  exact apart (spelled.trans named.symm)

/-- Values for distinct keys leave the same settings in any order. -/
theorem config_applied_perm (drawn : store.Drawn) (acceptable : Acceptable values)
    (distinct : DistinctKeys values) (perm : values.Perm others) :
    (applyValues store values).store.config = (applyValues store others).store.config := by
  have acceptable' : Acceptable others := fun v hv => acceptable v (perm.mem_iff.mpr hv)
  have distinct' : DistinctKeys others := perm.pairwise distinct fun apart => apart.symm
  refine Config.ext_value fun key => ?_
  refine congrArg (Config.Value.mk key.kind) ?_
  by_cases named : ∃ v ∈ values, Key.ofName v.1 = some key
  · obtain ⟨v, member, spelled⟩ := named
    have here := holds_applied_member drawn acceptable distinct member spelled
    have there := holds_applied_member drawn acceptable' distinct' (perm.mem_iff.mp member) spelled
    exact here.unique there
  · have unnamed : Unnamed key values := fun v hv spelled => named ⟨v, hv, spelled⟩
    have unnamed' : Unnamed key others := fun v hv => unnamed v (perm.mem_iff.mpr hv)
    rw [get_applied_of_unnamed drawn acceptable unnamed,
      get_applied_of_unnamed drawn acceptable' unnamed']

/-- In a store that came about, two texts under different keys are taken or
refused alike in either order, and leave the same settings and the same
layout. So do the values of a file that name each key once and are all taken
as things are: in whatever order, all of them are applied, and what they
leave is the same. -/
theorem changes_commute {store : Store} (reachable : store.Reachable) :
    (∀ k l : Key, k ≠ l → ∀ a b : String,
      ((store.setText l b).store.setText k a).accepted = (store.setText k a).accepted
      ∧ ((store.setText k a).store.setText l b).accepted = (store.setText l b).accepted
      ∧ ((store.setText k a).store.setText l b).store.config
        = ((store.setText l b).store.setText k a).store.config
      ∧ ((store.setText k a).store.setText l b).store.layout
        = ((store.setText l b).store.setText k a).store.layout)
    ∧ ∀ values others, DistinctKeys values → Takes store values → values.Perm others →
      (applyValues store values).fault? = none ∧ (applyValues store others).fault? = none
      ∧ (applyValues store values).store.config = (applyValues store others).store.config
      ∧ (applyValues store values).store.layout = (applyValues store others).store.layout := by
  have drawn := reachable.drawn
  constructor
  · intro k l ne a b
    have first : (store.setText k a).store.Drawn := (Store.follows_setText k a).drawn drawn
    have second : (store.setText l b).store.Drawn := (Store.follows_setText l b).drawn drawn
    have same := Store.config_setText_comm drawn ne a b
    refine ⟨Store.accepted_setText second drawn, Store.accepted_setText first drawn, same, ?_⟩
    exact ((Store.follows_setText l b).drawn first).layout_eq
      ((Store.follows_setText k a).drawn second) same
  · intro values others distinct takes perm
    have acceptable : Acceptable values := takes.acceptable
    obtain ⟨complete, here⟩ := applied_all drawn acceptable
    obtain ⟨complete', there⟩ := applied_all drawn fun v hv =>
      acceptable v (perm.mem_iff.mpr hv)
    have same := config_applied_perm drawn acceptable distinct perm
    exact ⟨complete, complete', same, here.layout_eq there same⟩

/-- Three rows and a wider canvas come to one grid in either order, and a margin
below nothing is refused before and after another width. -/
theorem changes_commute_rows :
    Config.twoRows.Reachable
      ∧ (Config.twoRows.setText .margin "-1").accepted = false
      ∧ ((Config.twoRows.setText .canvasWidth "640").store.setText .margin "-1").accepted
        = false
      ∧ DistinctKeys [("beatsPerRow", "2,2,2"), ("canvas_width", "900")]
      ∧ Takes Config.twoRows [("beatsPerRow", "2,2,2"), ("canvas_width", "900")]
      ∧ (applyValues Config.twoRows [("beatsPerRow", "2,2,2"), ("canvas_width", "900")]).store.layout
        = (applyValues Config.twoRows [("canvas_width", "900"), ("beatsPerRow", "2,2,2")]).store.layout
      ∧ (applyValues Config.twoRows [("canvas_width", "900"), ("beatsPerRow", "2,2,2")]).store.get
        .beatsPerRow = ([2, 2, 2] : List UInt32) := by
  have reachable : Config.twoRows.Reachable := .made Config.ofConfig_twoRows
  obtain ⟨pairs, lists⟩ := changes_commute reachable
  have refused : (Config.twoRows.setText .margin "-1").accepted = false := by decide +kernel
  obtain ⟨alike, -⟩ := pairs .margin .canvasWidth nofun "-1" "640"
  have distinct : DistinctKeys [("beatsPerRow", "2,2,2"), ("canvas_width", "900")] :=
    List.pairwise_pair.mpr (by decide +kernel)
  have takes : Takes Config.twoRows [("beatsPerRow", "2,2,2"), ("canvas_width", "900")] := by
    intro v hv
    simp only [List.mem_cons, List.not_mem_nil, or_false] at hv
    rcases hv with rfl | rfl
    · exact ⟨.beatsPerRow, by decide +kernel, by decide +kernel⟩
    · exact ⟨.canvasWidth, by decide +kernel, by decide +kernel⟩
  obtain ⟨-, -, -, layout⟩ := lists _ _ distinct takes (List.Perm.swap _ _ [])
  exact ⟨reachable, refused, alike.trans refused, distinct, takes, layout, by decide +kernel⟩

end Metrograph.Settings
