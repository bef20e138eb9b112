import Mathlib
import Criteria.Proofs.Query.Requirements
import Criteria.Proofs.Query.Reuse

/-!
# What filters mean

A query that was given filters demands, in order, one comparison for each of them
that has a value, and no more. Names come out as they were given, although they
are cut at their points, resolved join by join and put together again.
-/

namespace Criteria

open Criteria.Property (attributes answer Inquiry)

/-- Both expressions, then the third one, and so on. -/
def Expr.conjunction : List Expr → Expr
  | [] => .always
  | e :: es => es.foldl .and e

/-! ## Reading without joins -/

/-- A property whose attributes are all there is answered by its name. -/
theorem Property.answer_eq_ok {rejected : List String} {name : String}
    (hempty : "" ∉ attributes name) (hadmitted : ∀ a ∈ attributes name, a ∉ rejected) :
    answer rejected name = .ok name := by
  have hnone : (attributes name).find? (· ∈ rejected) = none := by
    rw [List.find?_eq_none]
    simpa using hadmitted
  rw [answer, if_neg hempty, hnone]

namespace Conjuncts

variable {F : Type} {inquire : F → Inquiry (Option Expr)} {value : F → Option Expr}
  {fragments : List F} {p : Plan}

/-- Fragments whose results are known come to the conjunction of those that have one. -/
theorem reading_inquiryFrom (before : Option Expr)
    (h : ∀ fragment ∈ fragments, (inquire fragment).reading p = (.ok (value fragment), p)) :
    (inquiryFrom inquire before fragments).reading p =
      (.ok ((fragments.filterMap value).foldl (fun before e => some (conjoin before e)) before),
        p) := by
  induction fragments generalizing before with
  | nil => rfl
  | cons fragment rest ih =>
    rw [List.forall_mem_cons] at h
    rw [inquiryFrom, Inquiry.reading_bind, h.1]
    simp only [Inquiry.reading]
    rw [ih _ h.2]
    cases hv : value fragment <;> simp [hv]

theorem foldl_conjoin (e : Expr) (es : List Expr) :
    es.foldl (fun before e => some (conjoin before e)) (some e) = some (es.foldl .and e) := by
  induction es generalizing e with
  | nil => rfl
  | cons e' es ih => exact ih (.and e e')

/-- Conjoined from nothing, the expressions are their conjunction. -/
theorem getD_foldl_conjoin (es : List Expr) :
    (es.foldl (fun before e => some (conjoin before e)) none).getD .always =
      Expr.conjunction es := by
  cases es with
  | nil => rfl
  | cons e es =>
    have hfold : (e :: es).foldl (fun before e => some (conjoin before e)) none =
        some (es.foldl .and e) := foldl_conjoin e es
    rw [hfold]
    rfl

theorem reading_inquiry
    (h : ∀ fragment ∈ fragments, (inquire fragment).reading p = (.ok (value fragment), p)) :
    ((gathering fragments).inquiry inquire).reading p =
      (.ok (Expr.conjunction (fragments.filterMap value)), p) := by
  rw [inquiry, Inquiry.reading_bind, reading_inquiryFrom none h, ← getD_foldl_conjoin]
  rfl

end Conjuncts

namespace Query

/-! ## Single filters -/

namespace Filter

/-- A comparison with a value, if there is one. -/
def comparison (op : Operator) (name : String) (value : Option Value) : Option Expr :=
  value.map fun v => .compare op name (some v)

/-- The comparison a filter stands for; there is none if it has no value to compare with. -/
def meaning : Filter → Option Expr
  | identity value => comparison .equal "id" value
  | equal name value => comparison .equal name value
  | notEqual name value => comparison .notEqual name value
  | after name value => comparison .greaterThan name value
  | afterInclusive name value => comparison .greaterThanOrEqual name value
  | before name value => comparison .lessThan name value
  | beforeInclusive name value => comparison .lessThanOrEqual name value
  | required name value => comparison .equal name value
  | equalIgnoreCase name text =>
    comparison .equalIgnoreCase name (text.map fun s => .text (Text.upper s))
  | notEqualIgnoreCase name text =>
    comparison .notEqualIgnoreCase name (text.map fun s => .text (Text.upper s))
  | likeIgnoreCase name pattern =>
    comparison .likeIgnoreCase name (pattern.map fun s =>
      .text (Text.upper (String.ofList (s.toList.map fun c => if c = '*' then '%' else c))))
  | startingWith name none => some (.compare .likeIgnoreCase name (some (.text "%")))
  | startingWith name (some s) =>
    some (.compare .likeIgnoreCase name (some (.text (Text.upper s ++ "%"))))
  | isIn name values => comparison .isIn name (values.map .list)
  | notIn name values => comparison .notIn name (values.map .list)
  | requiredIn name values => comparison .isIn name (values.map .list)
  | null name => some (.compare .isNull name none)
  | notNull name => some (.compare .isNotNull name none)
  | greatest name => some (.compare .equalsGreatest name none)

/-- The leaf that a filter registers, if it registers one. -/
def leaf? (f : Filter) : Option Leaf :=
  match f.verdict with
  | .register op value => some (.compare f.name op value)
  | _ => none

/-- A filter that lacks nothing is passed over, or registers the comparison it stands for. -/
theorem verdict_cases {f : Filter} (h : ¬ f.Lacks) :
    (f.verdict = .skip ∧ f.meaning = none) ∨
      ∃ op value, f.verdict = .register op value ∧ f.meaning = some (.compare op f.name value) ∧
        Plan.compare op f.name value = .ok (.compare op f.name value) := by
  have hvalue : ∀ op name (value : Option Value),
      (Verdict.ofValue op value = .skip ∧ comparison op name value = none) ∨
        ∃ op' value', Verdict.ofValue op value = .register op' value' ∧
          comparison op name value = some (.compare op' name value') ∧
          Plan.compare op' name value' = .ok (.compare op' name value') := by
    intro op name value
    cases value with
    | none => exact .inl ⟨rfl, rfl⟩
    | some v => exact .inr ⟨op, some v, rfl, rfl, by simp [Plan.compare]⟩
  have hverdict := mt (verdict_eq_contradict_iff _).1 h
  cases f with
  | required name value =>
    rw [verdict] at hverdict ⊢
    by_cases hblank : value.all Value.isBlankText = true
    · exact absurd (if_pos hblank) hverdict
    · rw [if_neg hblank]
      cases value with
      | none => exact absurd rfl hblank
      | some v => exact .inr ⟨_, _, rfl, rfl, rfl⟩
  | requiredIn name values =>
    rw [verdict] at hverdict ⊢
    by_cases hnone : values.all List.isEmpty = true
    · exact absurd (if_pos hnone) hverdict
    · rw [if_neg hnone]
      cases values with
      | none => exact absurd rfl hnone
      | some items => exact .inr ⟨_, _, rfl, rfl, rfl⟩
  | startingWith name beginning =>
    cases beginning with
    | none => exact .inr ⟨_, _, rfl, by simp [meaning, beginningPattern, Filter.name], rfl⟩
    | some s => exact .inr ⟨_, _, rfl, rfl, rfl⟩
  | null name => exact .inr ⟨_, _, rfl, rfl, rfl⟩
  | notNull name => exact .inr ⟨_, _, rfl, rfl, rfl⟩
  | greatest name => exact .inr ⟨_, _, rfl, rfl, rfl⟩
  | _ => exact hvalue _ _ _

/-- The leaf that is registered compares the property by its name. -/
theorem leaf?_cases {f : Filter} (h : ¬ f.Lacks) :
    (f.leaf? = none ∧ f.meaning = none) ∨
      ∃ op value, f.leaf? = some (.compare f.name op value) ∧
        f.meaning = some (.compare op f.name value) ∧
        Plan.compare op f.name value = .ok (.compare op f.name value) := by
  rcases verdict_cases h with ⟨hv, hm⟩ | ⟨op, value, hv, hm, hcompare⟩
  · exact .inl ⟨by rw [leaf?, hv], hm⟩
  · exact .inr ⟨op, value, by rw [leaf?, hv], hm, hcompare⟩

end Filter

/-! ## Filters in order -/

variable {filters : List Filter} {q : Query} {s : Tally}

theorem lacksAny_map_filter : LacksAny (filters.map .filter) ↔ ∃ f ∈ filters, f.Lacks := by
  induction filters with
  | nil => simp [LacksAny]
  | cons f filters ih => simp [LacksAny, Call.Lacks, ih]

theorem allRegistered_map_filter (filters : List Filter) :
    allRegistered (filters.map .filter) = (filters.filterMap Filter.leaf?).map .leaf := by
  induction filters with
  | nil => rfl
  | cons f filters ih =>
    rw [List.map_cons, allRegistered, ih, Call.registered, List.filterMap_cons, Filter.leaf?]
    cases f.verdict <;> rfl

theorem allRequested_map_filter (filters : List Filter) :
    allRequested (filters.map .filter) = [] := by
  induction filters with
  | nil => rfl
  | cons f filters ih => rw [List.map_cons, allRequested, ih, Call.requested, List.append_nil]

/-- A filter that registers a comparison adds it as a condition. -/
theorem run_filter_of_register {f : Filter} {op : Operator} {value : Option Value}
    (hverdict : f.verdict = .register op value) (hname : Text.isBlankText f.name = false)
    (q : Query) (s : Tally) :
    (q.filter f).run s = (.ok (q.demand (.leaf (.compare f.name op value))), s) := by
  rw [filter, hverdict]
  simp [register, hname]

/-- A filter can be added as long as its property has a name. -/
theorem filter_total {f : Filter} (hname : Text.isBlankText f.name = false) (q : Query)
    (s : Tally) : ∃ q' t, (q.filter f).run s = (.ok q', t) := by
  cases hverdict : f.verdict with
  | skip =>
    rw [filter, hverdict]
    exact ⟨q, s, rfl⟩
  | register op value => exact ⟨_, _, run_filter_of_register hverdict hname q s⟩
  | contradict =>
    rw [filter, hverdict]
    exact ⟨_, _, rfl⟩

/-- Calls each of which can be made of any query can be made one after the other. -/
theorem applyAll_total {calls : List Call}
    (h : ∀ call ∈ calls, ∀ (q : Query) s, ∃ q' t, (q.apply call).run s = (.ok q', t)) (q : Query)
    (s : Tally) : ∃ q' t, (q.applyAll calls).run s = (.ok q', t) := by
  induction calls generalizing q s with
  | nil => exact ⟨q, s, rfl⟩
  | cons call calls ih =>
    rw [List.forall_mem_cons] at h
    obtain ⟨q₁, s₁, hcall⟩ := h.1 q s
    obtain ⟨q', t, hcalls⟩ := ih h.2 q₁ s₁
    exact ⟨q', t, (Attempt.run_bind_of_ok hcall _).trans hcalls⟩

/-- Filters can be added as long as their properties have names. -/
theorem applyAll_map_filter (hname : ∀ f ∈ filters, Text.isBlankText f.name = false) (q : Query)
    (s : Tally) : ∃ q' t, (q.applyAll (filters.map .filter)).run s = (.ok q', t) := by
  refine applyAll_total ?_ q s
  intro call hcall
  obtain ⟨f, hf, rfl⟩ := List.mem_map.1 hcall
  exact filter_total (hname f hf)

/-- A query that demands leaves and requests nothing. -/
def demanding (options : Options) (leaves : List Leaf) : Query :=
  ⟨options, .gathering (leaves.map .leaf), []⟩

@[simp] theorem leaves_demanding (options : Options) (leaves : List Leaf) :
    (demanding options leaves).leaves = leaves := by
  induction leaves with
  | nil => rfl
  | cons l leaves ih =>
    have hcons : (demanding options (l :: leaves)).leaves =
        l :: (demanding options leaves).leaves := rfl
    rw [hcons, ih]

/-- What filters assemble demands the leaves they register. -/
theorem assemble_map_filter (hlacks : ∀ f ∈ filters, ¬ f.Lacks)
    (hname : ∀ f ∈ filters, Text.isBlankText f.name = false) (options : Options) (s : Tally) :
    ∃ t, (assemble options (filters.map .filter)).run s =
      (.ok (demanding options (filters.filterMap Filter.leaf?)), t) := by
  obtain ⟨q, t, hq⟩ := applyAll_map_filter hname { options } s
  have hnone : ¬ LacksAny (filters.map .filter) := by
    rw [lacksAny_map_filter]
    rintro ⟨f, hf, hl⟩
    exact hlacks f hf hl
  have hassembled := assemble_of_not_lacksAny hnone hq
  rw [allRegistered_map_filter, allRequested_map_filter] at hassembled
  rw [demanding, ← hassembled]
  exact ⟨t, hq⟩

/-- The leaves that filters register compare their properties. -/
theorem compare_of_mem (hlacks : ∀ f ∈ filters, ¬ f.Lacks) {l : Leaf}
    (hl : l ∈ filters.filterMap Filter.leaf?) :
    ∃ f ∈ filters, ∃ op value, l = .compare f.name op value ∧
      Plan.compare op f.name value = .ok (.compare op f.name value) := by
  obtain ⟨f, hf, hl⟩ := List.mem_filterMap.1 hl
  rcases Filter.leaf?_cases (hlacks f hf) with ⟨hnone, -⟩ | ⟨op, value, hsome, -, hcompare⟩
  · rw [hnone] at hl
    cases hl
  · rw [hsome, Option.some.injEq] at hl
    exact ⟨f, hf, op, value, hl.symm, hcompare⟩

/-! ## Builds -/

/-- The expression of a leaf that compares a property, where its path is its name. -/
def compared : Condition Leaf → Option Expr
  | .leaf (.compare name op value) => some (.compare op name value)
  | _ => none

theorem filterMap_compared (hlacks : ∀ f ∈ filters, ¬ f.Lacks) :
    ((filters.filterMap Filter.leaf?).map Condition.leaf).filterMap compared =
      filters.filterMap Filter.meaning := by
  rw [List.filterMap_map, List.filterMap_filterMap]
  refine List.filterMap_congr ?_
  intro f hf
  rcases Filter.leaf?_cases (hlacks f hf) with ⟨hl, hm⟩ | ⟨op, value, hl, hm, -⟩
  · rw [hl, hm]
    rfl
  · rw [hl, hm]
    rfl

/-- A comparison of a property that is there comes to the comparison of its name. -/
theorem reading_compare {script : Script} {p : Plan} {name : String} {op : Operator}
    {value : Option Value} {e : Expr} (hanswer : answer p.rejected name = .ok name)
    (hcompare : Plan.compare op name value = .ok e) :
    ((Leaf.compare name op value).inquiry script).reading p = (.ok (some e), p) := by
  have hsingle : (Inquiry.single (.path name)).reading p = (.ok name, p) := by
    rw [← hanswer]
    rfl
  rw [Leaf.inquiry, Inquiry.reading_bind, hsingle]
  simp only [hcompare]
  rfl

variable {E : Type}

/-- Filters that lack nothing, on properties that are there, build the conjunction of the
comparisons they stand for, in order. -/
theorem build_filters (options : Options) (s : Tally) (meet : Prefetcher E) (w : Workspace E Plan)
    (hlacks : ∀ f ∈ filters, ¬ f.Lacks)
    (hname : ∀ f ∈ filters, Text.isBlankText f.name = false ∧ "" ∉ attributes f.name)
    (hadmitted : ∀ f ∈ filters, ∀ a ∈ attributes f.name, a ∉ w.host.rejected) :
    ∃ q t joins w', (assemble options (filters.map .filter)).run s = (.ok q, t) ∧
      (q.build meet).run w =
        (.ok (Expr.conjunction (filters.filterMap Filter.meaning), joins), w') := by
  obtain ⟨t, hq⟩ := assemble_map_filter hlacks (fun f hf => (hname f hf).1) options s
  generalize hquery : demanding options (filters.filterMap Filter.leaf?) = q at hq
  have hleaves : ∀ l ∈ q.leaves, ∃ f ∈ filters, ∃ op value, l = .compare f.name op value ∧
      Plan.compare op f.name value = .ok (.compare op f.name value) := by
    intro l hl
    rw [← hquery, leaves_demanding] at hl
    exact compare_of_mem hlacks hl
  -- no leaf is evaluated by a caller, so any script will do
  have hscript : q.Scripted fun _ => pure none := by
    intro run hrun
    obtain ⟨f, -, op, value, hl, -⟩ := hleaves _ hrun
    cases hl
  have hplain : ∀ l ∈ q.leaves, (l.inquiry fun _ => pure none).All Property.Request.IsPlain := by
    intro l hl
    obtain ⟨f, -, op, value, rfl, -⟩ := hleaves l hl
    exact Leaf.plain_inquiry _ (fun _ _ _ _ => by simp) fun _ _ => trivial
  have hinquiry : (q.inquiry fun _ => pure none).reading w.host.withoutJoins =
      (.ok (Expr.conjunction (filters.filterMap Filter.meaning)), w.host.withoutJoins) := by
    rw [← hquery, ← filterMap_compared hlacks]
    refine Conjuncts.reading_inquiry ?_
    intro fragment hfragment
    obtain ⟨l, hl, rfl⟩ := List.mem_map.1 hfragment
    obtain ⟨f, hf, op, value, rfl, hcompare⟩ := compare_of_mem hlacks hl
    exact reading_compare (Property.answer_eq_ok (hname f hf).2 (hadmitted f hf)) hcompare
  have hprepare : q.prepare meet w = (.ok (), { w with tally := w.tally.recordBuild }) := by
    rw [← hquery, prepare, meetRequests]
    split <;> rfl
  obtain ⟨hresult, -⟩ := build_plain hscript hplain hprepare q.options.reuseJoins
  rw [hinquiry] at hresult
  have hok : Except.map Prod.fst ((q.build meet).run w).1 =
      .ok (Expr.conjunction (filters.filterMap Filter.meaning)) := hresult
  rcases hrun : (q.build meet).run w with ⟨error | ⟨e, joins⟩, w'⟩
  · rw [hrun] at hok
    cases hok
  · rw [hrun] at hok
    cases hok
    exact ⟨q, t, joins, w', hq, hrun⟩

/-- Filters behind shared joins and on the root, one of them without a value. -/
def mixedFilters : List Filter :=
  [.equal "a.b.x" (some (.bool true)), .equal "a.k" none, .likeIgnoreCase "a.b.y" (some "u*"),
    .startingWith "n" none, .required "a.z" (some (.text "v"))]

theorem build_filters_mixed :
    ∃ q t joins w', (assemble {} (mixedFilters.map .filter)).run {} = (.ok q, t) ∧
      (q.build Prefetch.refused).run ⟨(), { rejected := ["c"] }, {}⟩ =
        (.ok (.and (.and (.and (.compare .equal "a.b.x" (some (.bool true)))
            (.compare .likeIgnoreCase "a.b.y" (some (.text "U%"))))
            (.compare .likeIgnoreCase "n" (some (.text "%"))))
            (.compare .equal "a.z" (some (.text "v"))), joins), w') := by
  have hlacks : ∀ f ∈ mixedFilters, ¬ f.Lacks := by
    simp [mixedFilters, Filter.Lacks]
  have hupper : Text.upper "u%" = "U%" := by decide +kernel
  have hbuild := build_filters {} {} Prefetch.refused ⟨(), { rejected := ["c"] }, {}⟩ hlacks
    (by decide +kernel) (by decide +kernel)
  have hmeaning : mixedFilters.filterMap Filter.meaning =
      [.compare .equal "a.b.x" (some (.bool true)),
        .compare .likeIgnoreCase "a.b.y" (some (.text "U%")),
        .compare .likeIgnoreCase "n" (some (.text "%")),
        .compare .equal "a.z" (some (.text "v"))] := by
    rw [← hupper]
    rfl
  rw [hmeaning] at hbuild
  exact hbuild

end Query

end Criteria
