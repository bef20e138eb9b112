import Mathlib
import Criteria.Proofs.Property.Answers
import Criteria.Proofs.Property.Frame

/-!
# Asking again

In a table that memoizes, what was asked once can be asked again. Joins that were
made are found, and what was refused is refused in the same place, for nothing
that is joined in the meantime ends with a name that does not exist. So nothing
is joined any more, and how results are presented ends up as it was.
-/

namespace Criteria.Property

open Criteria.Relation (along_none extend)
open Criteria.RelationTable (getElem?_of_isPrefix handle?_of_getElem? keeps_add lengthens_resolve
  lookup_of_add reach reach_cases run_reach walk walk_cons)

variable {w v v' w₁ : Scope} {α β : Type} {name : String}

/-! ## Tables -/

/-- The table memoizes, and what is memoized is found under its own path. -/
structure Memoizing (t : RelationTable Join) : Prop where
  memoize_eq : t.memoize = true
  findable : t.Findable

namespace Memoizing

variable {t : RelationTable Join} {node : Relation Join}

theorem add (h : Memoizing t) (node : Relation Join) : Memoizing (t.add node) :=
  ⟨h.memoize_eq, h.findable.add node⟩

theorem lookup_add (h : Memoizing t) (hnew : t.lookup node.path = none) :
    (t.add node).lookup node.path = some t.nodes.length := by
  rw [RelationTable.lookup] at hnew
  simp [RelationTable.lookup, RelationTable.add, h.memoize_eq, List.lookup_append, hnew]

end Memoizing

/-! ## Later scopes -/

/-- The attribute at the end of a path. -/
def lastAttribute (path : String) : String := (attributes path).getLastD ""

theorem lastAttribute_extend (start : Option String) (h : '.' ∉ name.toList) :
    lastAttribute (extend start name) = name := by
  rw [lastAttribute, attributes_extend start h, List.getLastD_concat]

/-- The second scope has at least the joins of the first one, and none of the others ends with a
name that does not exist. -/
structure Later (w v : Scope) : Prop where
  isPrefix : w.store.nodes <+: v.store.nodes
  keeps : w.store.Keeps v.store
  admitted : ∀ path number, v.store.lookup path = some number →
    w.store.lookup path = some number ∨ lastAttribute path ∉ w.host.rejected
  rejected_eq : v.host.rejected = w.host.rejected

namespace Later

theorem refl (w : Scope) : Later w w where
  isPrefix := List.prefix_refl _
  keeps := .refl _
  admitted _ _ h := .inl h
  rejected_eq := rfl

theorem trans (h : Later w v) (h' : Later v v') : Later w v' where
  isPrefix := h.isPrefix.trans h'.isPrefix
  keeps := h.keeps.trans h'.keeps
  admitted path number hlookup := by
    rcases h'.admitted path number hlookup with hold | hlast
    · exact h.admitted path number hold
    · exact .inr (h.rejected_eq ▸ hlast)
  rejected_eq := h'.rejected_eq.trans h.rejected_eq

/-- Only the table and the names that do not exist matter. -/
theorem of_eq (hstore : v.store = w.store) (hrejected : v.host.rejected = w.host.rejected) :
    Later w v where
  isPrefix := hstore ▸ List.prefix_refl _
  keeps := hstore ▸ .refl _
  admitted _ _ h := .inl (hstore ▸ h)
  rejected_eq := hrejected

/-- A join whose name exists has been added. -/
theorem of_add {node : Relation Join} (hstore : v.store = w.store.add node)
    (hlast : lastAttribute node.path ∉ w.host.rejected)
    (hrejected : v.host.rejected = w.host.rejected) : Later w v where
  isPrefix := hstore ▸ List.prefix_append _ _
  keeps := hstore ▸ keeps_add _ node
  admitted path number h := by
    rw [hstore] at h
    rcases lookup_of_add h with hold | ⟨rfl, -⟩
    · exact .inl hold
    · exact .inr hlast
  rejected_eq := hrejected

/-- What could not be found and ends with a name that does not exist cannot be found later. -/
theorem lookup_eq_none (h : Later w v) {path : String} (hnone : w.store.lookup path = none)
    (hlast : lastAttribute path ∈ w.host.rejected) : v.store.lookup path = none := by
  cases hlookup : v.store.lookup path with
  | none => rfl
  | some number =>
    rcases h.admitted path number hlookup with hold | hadmitted
    · rw [hnone] at hold
      cases hold
    · exact absurd hlast hadmitted

end Later

/-! ## Presenting again -/

namespace Presentation

/-- The plan with its results presented in one way after the other. -/
def applyAll (shown : List Presentation) (p : Plan) : Plan :=
  shown.foldl (fun p presentation => presentation.apply p) p

@[simp] theorem applyAll_nil (p : Plan) : applyAll [] p = p := rfl

@[simp] theorem applyAll_cons (presentation : Presentation) (shown : List Presentation) (p : Plan) :
    applyAll (presentation :: shown) p = applyAll shown (presentation.apply p) := rfl

theorem applyAll_append (shown shown' : List Presentation) (p : Plan) :
    applyAll (shown ++ shown') p = applyAll shown' (applyAll shown p) := List.foldl_append

@[simp] theorem rejected_applyAll (shown : List Presentation) (p : Plan) :
    (applyAll shown p).rejected = p.rejected := by
  induction shown generalizing p with
  | nil => rfl
  | cons presentation shown ih => rw [applyAll_cons, ih, rejected_apply]

@[simp] theorem joins_applyAll (shown : List Presentation) (p : Plan) :
    (applyAll shown p).joins = p.joins := by
  induction shown generalizing p with
  | nil => rfl
  | cons presentation shown ih => rw [applyAll_cons, ih, joins_apply]

/-- How results are presented has nothing to do with joins. -/
theorem withoutJoins_applyAll (shown : List Presentation) (p : Plan) :
    (applyAll shown p).withoutJoins = applyAll shown p.withoutJoins := by
  induction shown generalizing p with
  | nil => rfl
  | cons presentation shown ih =>
    rw [applyAll_cons, ih, applyAll_cons]
    cases presentation <;> rfl

/-- A presentation covers up the one before, or the two have nothing to do with each other. -/
theorem apply_apply (presentation earlier : Presentation) (p : Plan) :
    presentation.apply (earlier.apply p) = presentation.apply p ∨
      presentation.apply (earlier.apply p) = earlier.apply (presentation.apply p) := by
  match presentation, earlier with
  | distinct _, distinct _ | groupBy _, groupBy _ | select _, select _ => exact .inl rfl
  | distinct _, groupBy _ | distinct _, select _ | groupBy _, distinct _ | groupBy _, select _
  | select _, distinct _ | select _, groupBy _ => exact .inr rfl

/-- A presentation that comes again in the end need not come before. -/
theorem apply_applyAll_apply (presentation : Presentation) (shown : List Presentation) (p : Plan) :
    presentation.apply (applyAll shown (presentation.apply p)) =
      presentation.apply (applyAll shown p) := by
  induction shown generalizing p with
  | nil => cases presentation <;> rfl
  | cons next shown ih =>
    rw [applyAll_cons, applyAll_cons]
    rcases apply_apply next presentation p with h | h
    · rw [h]
    · rw [h, ih]

/-- Presenting results in the same ways again changes nothing. -/
theorem applyAll_applyAll (shown : List Presentation) (p : Plan) :
    applyAll shown (applyAll shown p) = applyAll shown p := by
  induction shown using List.reverseRecOn with
  | nil => rfl
  | append_singleton shown presentation ih =>
    simp only [applyAll_append, applyAll_cons, applyAll_nil]
    rw [apply_applyAll_apply, ih]

end Presentation

/-- A plan is its joins and the rest. -/
theorem eq_of_withoutJoins_eq {p p' : Plan} (hjoins : p.joins = p'.joins)
    (hrest : p.withoutJoins = p'.withoutJoins) : p = p' := by
  cases p
  cases p'
  simp_all [Plan.withoutJoins]

open Presentation (applyAll applyAll_append applyAll_applyAll joins_applyAll rejected_applyAll
  withoutJoins_applyAll)

/-! ## Attempts that can be made again -/

/-- The attempt, which presents the results in some ways, can be made again later. It comes to the
same, makes no joins, and presents the results in the same ways. -/
structure SettlesShowing (x : Attempt Failure Scope α) (w : Scope) (shown : List Presentation) :
    Prop where
  memoizing : Memoizing (x.run w).2.store
  later : Later w (x.run w).2
  host_eq : (x.run w).2.host.withoutJoins = applyAll shown w.host.withoutJoins
  again : ∀ v, Later (x.run w).2 v → (x.run v).1 = (x.run w).1 ∧ (x.run v).2.store = v.store ∧
    (x.run v).2.host = applyAll shown v.host

/-- The attempt can be made again later. -/
def Settles (x : Attempt Failure Scope α) (w : Scope) : Prop := ∃ shown, SettlesShowing x w shown

/-- An attempt that makes no joins now and comes to the same later. -/
theorem settles_of_still {x : Attempt Failure Scope α} (hw : Memoizing w.store)
    (shown : List Presentation) (r : Except Failure α)
    (h : ∀ v, Later w v → (x.run v).1 = r ∧ (x.run v).2.store = v.store ∧
      (x.run v).2.host = applyAll shown v.host) : Settles x w := by
  obtain ⟨hresult, hstore, hhost⟩ := h w (.refl w)
  have hlater : Later w (x.run w).2 := .of_eq hstore (by rw [hhost, rejected_applyAll])
  refine ⟨shown, hstore ▸ hw, hlater, ?_, fun v hv => ?_⟩
  · rw [hhost, withoutJoins_applyAll]
  · rw [hresult]
    exact h v (hlater.trans hv)

theorem settles_ofExcept (hw : Memoizing w.store) (r : Except Failure α) :
    Settles (.ofExcept r) w :=
  settles_of_still hw [] r fun _ _ => ⟨rfl, rfl, rfl⟩

theorem Settles.outcome {x : Attempt Failure Scope α} (h : Settles x w) : Settles x.outcome w := by
  obtain ⟨shown, h⟩ := h
  refine ⟨shown, h.memoizing, h.later, h.host_eq, fun v hv => ?_⟩
  obtain ⟨hresult, hrest⟩ := h.again v hv
  exact ⟨congrArg Except.ok hresult, hrest⟩

theorem SettlesShowing.exists_again {x : Attempt Failure Scope α} {shown : List Presentation}
    (h : SettlesShowing x w shown) {r : Except Failure α} (hrun : x.run w = (r, w₁))
    (hv : Later w₁ v) :
    ∃ v₁, x.run v = (r, v₁) ∧ v₁.store = v.store ∧ v₁.host = applyAll shown v.host := by
  have hagain := h.again v
  rw [hrun] at hagain
  obtain ⟨hresult, hstore, hhost⟩ := hagain hv
  exact ⟨(x.run v).2, Prod.ext hresult rfl, hstore, hhost⟩

theorem Settles.bind {x : Attempt Failure Scope α} {f : α → Attempt Failure Scope β}
    (hx : Settles x w)
    (hf : ∀ a w₁, x.run w = (.ok a, w₁) → Memoizing w₁.store → Settles (f a) w₁) :
    Settles (x >>= f) w := by
  obtain ⟨shown, hx⟩ := hx
  obtain ⟨hmemoizing, hlater, hhost, -⟩ := id hx
  rcases hrun : x.run w with ⟨e | a, w₁⟩ <;> rw [hrun] at hmemoizing hlater hhost
  · have hfails := Attempt.run_bind_of_error hrun f
    refine ⟨shown, hfails ▸ hmemoizing, hfails ▸ hlater, ?_, fun v hv => ?_⟩
    · rwa [hfails]
    · rw [hfails] at hv ⊢
      obtain ⟨v₁, hrun', hrest⟩ := hx.exists_again hrun hv
      rw [Attempt.run_bind_of_error hrun' f]
      exact ⟨rfl, hrest⟩
  · have hgoes := Attempt.run_bind_of_ok hrun f
    obtain ⟨shown', hf⟩ := hf a w₁ hrun hmemoizing
    have hlater' : Later w ((f a).run w₁).2 := hlater.trans hf.later
    refine ⟨shown ++ shown', hgoes ▸ hf.memoizing, hgoes ▸ hlater', ?_, fun v hv => ?_⟩
    · rw [hgoes, hf.host_eq, applyAll_append, ← hhost]
    · rw [hgoes] at hv ⊢
      obtain ⟨v₁, hrun', hstore, hhost'⟩ := hx.exists_again hrun (hf.later.trans hv)
      -- The first part only presents results now, so what it leaves behind is as late as `v`.
      have hv₁ : Later v v₁ := .of_eq hstore (by rw [hhost', rejected_applyAll])
      obtain ⟨hresult, hstore', hhost''⟩ := hf.again v₁ (hv.trans hv₁)
      rw [Attempt.run_bind_of_ok hrun' f, applyAll_append, ← hhost', ← hstore]
      exact ⟨hresult, hstore', hhost''⟩

/-- Made again at once, the attempt comes to the same and leaves the scope as it is. -/
theorem Settles.again {x : Attempt Failure Scope α} (h : Settles x w) :
    (x.run (x.run w).2).1 = (x.run w).1 ∧ (x.run (x.run w).2).2.store = (x.run w).2.store ∧
      (x.run (x.run w).2).2.host = (x.run w).2.host := by
  obtain ⟨shown, h⟩ := h
  obtain ⟨hresult, hstore, hhost⟩ := h.again _ (.refl _)
  refine ⟨hresult, hstore, eq_of_withoutJoins_eq ?_ ?_⟩
  · rw [hhost, joins_applyAll]
  · rw [hhost, withoutJoins_applyAll, h.host_eq, applyAll_applyAll]

/-- Made twice in a row, it ends where it would have ended alone, with its result on both sides. -/
theorem Settles.twice {x : Attempt Failure Scope α} (h : Settles x w) (f : α → α → β) :
    let both := (x >>= fun a => x >>= fun b => pure (f a b)).run w
    both.1 = (x.run w).1.map (fun a => f a a) ∧ both.2.store = (x.run w).2.store ∧
      both.2.host = (x.run w).2.host := by
  intro both
  have hagain := h.again
  have hboth : both = (x >>= fun a => x >>= fun b => pure (f a b)).run w := rfl
  rcases hfirst : x.run w with ⟨e | a, w₁⟩
  · rw [hboth, Attempt.run_bind_of_error hfirst]
    exact ⟨rfl, rfl, rfl⟩
  · rw [hfirst] at hagain
    rcases hsecond : x.run w₁ with ⟨r, w₂⟩
    rw [hsecond] at hagain
    obtain ⟨rfl, hrest⟩ := hagain
    rw [hboth, Attempt.run_bind_of_ok hfirst, Attempt.run_bind_of_ok hsecond]
    exact ⟨rfl, hrest⟩

/-! ## Walks -/

/-- A step finds its join now and later, or is refused now and later, or makes the join that is
found later. -/
theorem settles_reach (hw : Memoizing w.store) (start : Option String) (parent : Option Nat)
    (hname : '.' ∉ name.toList) : Settles (reach Plan.join (extend start name) parent name) w := by
  have hlast : lastAttribute (extend start name) = name := lastAttribute_extend start hname
  rcases hrun : (reach Plan.join (extend start name) parent name).run w with ⟨r, w'⟩
  rcases reach_cases hrun with ⟨id, hlookup, -⟩ | ⟨hlookup, e, -, -, hjoin⟩ |
    ⟨hlookup, handle, rfl, hstore, hjoin⟩
  · refine settles_of_still hw [] (.ok id) fun v hv => ?_
    rw [run_reach, hv.keeps _ _ hlookup]
    exact ⟨rfl, rfl, rfl⟩
  · have hrejected : name ∈ w.host.rejected := by
      by_contra hadmitted
      rw [Plan.run_join, if_neg hadmitted] at hjoin
      cases hjoin
    -- No join that ends with this name can have been made in the meantime.
    refine settles_of_still hw [] (.error (.unknownAttribute name)) fun v hv => ?_
    rw [run_reach, hv.lookup_eq_none hlookup (by rwa [hlast])]
    simp [Plan.run_join, hv.rejected_eq, hrejected]
  · have hadmitted : name ∉ w.host.rejected := by
      intro hrejected
      rw [Plan.run_join, if_pos hrejected] at hjoin
      cases hjoin
    obtain ⟨links, hhost⟩ : Joined w.host w'.host := by
      have hjoined := joined_join (parent.bind w.store.handle?) name w.host
      rwa [hjoin] at hjoined
    have hlater : Later w w' := .of_add hstore (by rwa [hlast]) (by rw [hhost])
    refine ⟨[], ?_, ?_, ?_, ?_⟩ <;> rw [hrun]
    · exact hstore ▸ hw.add _
    · exact hlater
    · rw [hhost]
      rfl
    · intro v hv
      have hfound : w'.store.lookup (extend start name) = some w.store.nodes.length := by
        rw [hstore]
        exact hw.lookup_add hlookup
      rw [run_reach, hv.keeps _ _ hfound]
      exact ⟨rfl, rfl, rfl⟩

/-- A walk along names without points can be made again. -/
theorem settles_walk (hw : Memoizing w.store) (start : Option (String × Nat)) {chain : List String}
    (hchain : ∀ name ∈ chain, '.' ∉ name.toList) : Settles (walk Plan.join start chain) w := by
  induction chain generalizing start w with
  | nil => exact settles_ofExcept hw (.ok _)
  | cons name chain ih =>
    rw [List.forall_mem_cons] at hchain
    rw [walk_cons]
    exact (settles_reach hw _ _ hchain.1).bind fun id w₁ _ hw₁ => ih hw₁ _ hchain.2

/-! ## Paths -/

/-- The join at the end of a walk has its handle also later. -/
theorem Later.handle?_eq (hv : Later w₁ v) (hw : Memoizing w.store) {chain : List String}
    {id : Option Nat} (hrun : (RelationTable.resolve Plan.join chain).run w = (.ok id, w₁)) :
    id.bind v.store.handle? = id.bind w₁.store.handle? := by
  have hpath := (lengthens_resolve Plan.join chain hw.findable).pathOf_eq
  rw [hrun] at hpath
  replace hpath : w₁.store.pathOf id = Relation.along none chain := hpath id rfl
  cases id with
  | none => rfl
  | some number =>
    have hne : chain ≠ [] := by
      rintro rfl
      cases hrun
    rw [along_none hne] at hpath
    obtain ⟨node, hn, -⟩ := Option.map_eq_some_iff.1 hpath
    rw [Option.bind_some, Option.bind_some, handle?_of_getElem? hn,
      handle?_of_getElem? (getElem?_of_isPrefix hv.isPrefix hn)]

/-- A path can be asked for again. -/
theorem settles_path (hw : Memoizing w.store) (name : String) : Settles (path name) w := by
  rw [path, resolve]
  split
  · exact settles_ofExcept hw (.error _)
  · next chain last hcut =>
    refine (settles_walk hw none (point_not_mem_of_cut? hcut)).bind fun id w₁ hrun hw₁ => ?_
    have hvisit : id.elim (pure ()) (fun _ => pure ()) =
        (pure () : Attempt Failure Scope Unit) := by
      cases id <;> rfl
    rw [hvisit, pure_bind]
    refine settles_of_still hw₁ [] ((Plan.property (id.bind w₁.store.handle?) last).run w₁.host).1
      fun v hv => ?_
    rw [Attempt.run_bind_of_ok (Attempt.run_current v), Workspace.run_onHost,
      hv.handle?_eq hw hrun, Plan.run_property, Plan.run_property, hv.rejected_eq]
    exact ⟨rfl, rfl, rfl⟩

namespace Inquiry

/-- An inquiry that puts no conditions on joins can be made again. -/
theorem settles_attempt {x : Inquiry α} (hplain : x.All Request.IsPlain) (hw : Memoizing w.store) :
    Settles x.attempt w := by
  induction x generalizing w with
  | done result => exact settles_ofExcept hw result
  | ask request next ih =>
    cases request with
    | pathOn name restriction => exact hplain.1.elim
    | path name =>
      exact (settles_path hw name).outcome.bind fun answer w₁ _ hw₁ =>
        ih answer (hplain.2 answer) hw₁
  | present presentation next ih =>
    have hpresent : Settles (Workspace.onHost (.change presentation.apply)) w :=
      settles_of_still hw [presentation] (.ok ()) fun v _ => ⟨rfl, rfl, rfl⟩
    exact hpresent.bind fun _ w₁ _ hw₁ => ih hplain hw₁
  | record entry next ih =>
    have hrecord : Settles (Workspace.record entry) w :=
      settles_of_still hw [] (.ok ()) fun v _ => ⟨rfl, rfl, rfl⟩
    exact hrecord.bind fun _ w₁ _ hw₁ => ih hplain hw₁

end Inquiry

end Criteria.Property
