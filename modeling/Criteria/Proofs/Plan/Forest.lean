import Mathlib
import Criteria.Proofs.Plan.Placement

/-!
# The forest of a pool of links

Trees of links are grown from a pool that loses the links of every parent as they
are placed. On the way down from a link without parent no parent is met twice, so
no link is missing where it belongs.
-/

namespace Criteria

open FetchTree (children others mem_children length_others_lt)

namespace LinkTree

variable {pool : List Link} {parent : Option Nat} {passed passed' : List (Option Nat)}

/-! ## Trails -/

/-- The parents on the way from a parent to the root, which is `none`. -/
inductive Trail (pool : List Link) : Option Nat → List (Option Nat) → Prop
  | root : Trail pool none []
  | step {link : Link} {passed : List (Option Nat)} (hmem : link ∈ pool)
      (h : Trail pool link.parent passed) : Trail pool (some link.id) (link.parent :: passed)

/-- From every parent that was passed there is a shorter trail. -/
theorem Trail.exists_shorter (h : Trail pool parent passed) {above : Option Nat}
    (habove : above ∈ passed) :
    ∃ passed', Trail pool above passed' ∧ passed'.length < passed.length := by
  induction h with
  | root => simp at habove
  | @step link passed hmem h ih =>
    rcases List.mem_cons.1 habove with rfl | habove
    · exact ⟨passed, h, by simp⟩
    · obtain ⟨passed', h', hlt⟩ := ih habove
      exact ⟨passed', h', by simp; omega⟩

section

variable (hids : (pool.map (·.id)).Nodup)

include hids

/-- Where links have different numbers, there is one way to the root at most. -/
theorem Trail.unique (h : Trail pool parent passed) (h' : Trail pool parent passed') :
    passed = passed' := by
  induction h generalizing passed' with
  | root =>
    cases h'
    rfl
  | @step link passed hmem h ih =>
    generalize hid : some link.id = parent at h'
    cases h' with
    | root => simp at hid
    | @step link' passed' hmem' h' =>
      obtain rfl := List.inj_on_of_nodup_map hids hmem hmem' (Option.some.inj hid)
      rw [ih h']

/-- A trail does not meet its parent again. -/
theorem Trail.not_mem (h : Trail pool parent passed) : parent ∉ passed := by
  intro hmem
  obtain ⟨passed', h', hlt⟩ := h.exists_shorter hmem
  rw [h.unique hids h'] at hlt
  exact Nat.lt_irrefl _ hlt

end

/-! ## Forests -/

/-- The trees on a parent, grown from a pool of links that is left without them. -/
def forest (pool : List Link) (parent : Option Nat) : List LinkTree :=
  (children pool parent).attach.map fun ⟨link, _⟩ =>
    .node link (forest (others pool parent) (some link.id))
termination_by pool.length
decreasing_by exact length_others_lt ‹_›

theorem forest_eq (pool : List Link) (parent : Option Nat) :
    forest pool parent =
      (children pool parent).map fun link =>
        .node link (forest (others pool parent) (some link.id)) := by
  rw [forest]
  exact List.attach_map_val
    (f := fun link => node link (forest (others pool parent) (some link.id)))

/-- What the trees show is the forest of names. -/
theorem map_named_forest (pool : List Link) (parent : Option Nat) :
    (forest pool parent).map named = FetchTree.forest pool parent := by
  induction pool, parent using forest.induct with
  | case1 pool parent ih =>
    rw [forest_eq, FetchTree.forest_eq, List.map_map]
    refine List.map_congr_left fun link hlink => ?_
    simp [named, ih link hlink]

/-- The links that do not start from a parent that was passed. -/
def remaining (pool : List Link) (passed : List (Option Nat)) : List Link :=
  pool.filter (·.parent ∉ passed)

theorem children_remaining (pool : List Link) (h : parent ∉ passed) :
    children (remaining pool passed) parent = children pool parent := by
  simp only [children, remaining, List.filter_filter]
  refine List.filter_congr fun link _ => ?_
  by_cases hp : link.parent = parent <;> simp [hp, h]

theorem others_remaining (pool : List Link) (parent : Option Nat) (passed : List (Option Nat)) :
    others (remaining pool passed) parent = remaining pool (parent :: passed) := by
  simp only [others, remaining, List.filter_filter]
  refine List.filter_congr fun link _ => ?_
  by_cases hp : link.parent = parent <;> simp [hp]

/-- What remains on a trail is enough to place all that belongs there. -/
theorem Trail.placed (hids : (pool.map (·.id)).Nodup) {parent : Option Nat}
    {passed : List (Option Nat)} (h : Trail pool parent passed) :
    Placed pool parent (forest (remaining pool passed) parent) := by
  have hchildren := children_remaining pool (h.not_mem hids)
  have hforest : forest (remaining pool passed) parent =
      (children pool parent).map fun link =>
        .node link (forest (remaining pool (parent :: passed)) (some link.id)) := by
    rw [forest_eq, hchildren, others_remaining]
  rw [hforest]
  constructor
  · simp [Function.comp_def]
  · intro tree htree
    obtain ⟨link, hlink, rfl⟩ := List.mem_map.1 htree
    obtain ⟨hmem, hparent⟩ := mem_children.1 hlink
    have hlt : (remaining pool (parent :: passed)).length < (remaining pool passed).length :=
      others_remaining pool parent passed ▸ length_others_lt (hchildren ▸ hlink)
    exact (hparent ▸ Trail.step hmem (hparent ▸ h) :
      Trail pool (some link.id) (parent :: passed)).placed hids
termination_by (remaining pool passed).length

/-- The trees of a whole pool have every link in its place. -/
theorem placed_forest (hids : (pool.map (·.id)).Nodup) : Placed pool none (forest pool none) := by
  have h := Trail.root.placed hids
  rwa [remaining, List.filter_eq_self.2 (by simp)] at h

end LinkTree

end Criteria
