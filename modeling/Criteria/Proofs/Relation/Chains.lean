import Mathlib
import Criteria.Plan
import Criteria.Proofs.Relation.Path

/-!
# Chains of names

A chain of names leads from the root to a relation, and its beginnings lead to
the relations on the way. Links that are made one after the other, each from the
root or from an earlier link, can be read as chains again.
-/

namespace Criteria.Relation

variable {name : String} {before chain : List String} {links : List Link}
  {chains : List (List String)} {parent : Option Nat} {i : Nat}

/-! ## First occurrences -/

section FirstOccurrences

variable {α β : Type} [BEq α] [LawfulBEq α] [BEq β] [LawfulBEq β]

/-- One more element is a first occurrence if it is not there yet. -/
theorem eraseDups_concat (l : List α) (a : α) :
    (l ++ [a]).eraseDups = if a ∈ l then l.eraseDups else l.eraseDups ++ [a] := by
  rw [List.eraseDups_append]
  by_cases h : a ∈ l <;> simp [List.removeAll, List.eraseDups_cons, h]

/-- Nothing is added by what is there. -/
theorem eraseDups_append_of_subset {l l' : List α} (h : l' ⊆ l) :
    (l ++ l').eraseDups = l.eraseDups := by
  have hnone : l'.removeAll l = [] := by
    rw [List.removeAll, List.filter_eq_nil_iff]
    intro a ha
    simpa using h ha
  rw [List.eraseDups_append, hnone, List.eraseDups_nil, List.append_nil]

theorem filter_eraseDups (p : α → Bool) (l : List α) :
    l.eraseDups.filter p = (l.filter p).eraseDups := by
  induction l using List.reverseRecOn with
  | nil => simp
  | append_singleton l a ih =>
    by_cases ha : a ∈ l <;> by_cases hp : p a <;> simp [eraseDups_concat, ha, hp, ih]

theorem map_eraseDups {f : α → β} (hf : Function.Injective f) (l : List α) :
    l.eraseDups.map f = (l.map f).eraseDups := by
  induction l using List.reverseRecOn with
  | nil => simp
  | append_singleton l a ih =>
    by_cases ha : a ∈ l <;> simp [eraseDups_concat, ha, ih, hf.eq_iff]

end FirstOccurrences

/-! ## Beginnings -/

/-- The nonempty beginnings of a chain, from short to long; the last is the chain itself. -/
def beginnings (chain : List String) : List (List String) := chain.inits.tail

/-- The chains that are reached one by one along a chain behind another one. -/
def stretch (before chain : List String) : List (List String) :=
  (beginnings chain).map (before ++ ·)

@[simp] theorem beginnings_nil : beginnings [] = [] := rfl

theorem beginnings_cons (name : String) (chain : List String) :
    beginnings (name :: chain) = [name] :: (beginnings chain).map (name :: ·) := by
  cases chain <;> simp [beginnings]

@[simp] theorem stretch_nil (before : List String) : stretch before [] = [] := rfl

theorem stretch_cons (before : List String) (name : String) (chain : List String) :
    stretch before (name :: chain) = (before ++ [name]) :: stretch (before ++ [name]) chain := by
  simp [stretch, beginnings_cons]

theorem stretch_root (chain : List String) : stretch [] chain = beginnings chain := by
  simp [stretch]

theorem ne_nil_of_mem_beginnings {c : List String} (h : c ∈ beginnings chain) : c ≠ [] := by
  rintro rfl
  cases chain <;> simp [beginnings_cons] at h

/-- Of the beginnings only the first has a single name. -/
theorem filter_beginnings (chain : List String) :
    (beginnings chain).filter (·.length = 1) = chain.head?.toList.map ([·]) := by
  cases chain with
  | nil => rfl
  | cons name chain =>
    have hlong : ((beginnings chain).map (name :: ·)).filter (·.length = 1) = [] := by
      rw [List.filter_eq_nil_iff]
      intro c hc
      obtain ⟨d, hd, rfl⟩ := List.mem_map.1 hc
      simpa using ne_nil_of_mem_beginnings hd
    simp [beginnings_cons, hlong]

/-- The last name of a chain. -/
def lastName (chain : List String) : String := chain.getLastD ""

@[simp] theorem lastName_concat (chain : List String) (name : String) :
    lastName (chain ++ [name]) = name := by
  simp [lastName]

/-- The beginnings of a chain end with its names, one after the other. -/
theorem map_lastName_beginnings (chain : List String) :
    (beginnings chain).map lastName = chain := by
  induction chain with
  | nil => rfl
  | cons name chain ih =>
    have hlast : ∀ c ∈ beginnings chain, lastName (name :: c) = lastName c := by
      intro c hc
      cases c with
      | nil => exact absurd rfl (ne_nil_of_mem_beginnings hc)
      | cons a c => rfl
    rw [beginnings_cons, List.map_cons, List.map_map]
    have hmap : (beginnings chain).map (lastName ∘ (name :: ·)) = (beginnings chain).map lastName :=
      List.map_congr_left hlast
    rw [hmap, ih]
    rfl

/-! ## Paths of chains -/

theorem along_concat (chain : List String) (name : String) :
    along none (chain ++ [name]) = some (extend (along none chain) name) := by
  simp [along]

/-- The path one name further is that of the chain one name longer. -/
theorem extend_along (chain : List String) (name : String) :
    extend (along none chain) name = ".".intercalate (chain ++ [name]) := by
  have h := along_concat chain name
  rw [along_none (by simp), Option.some.injEq] at h
  exact h.symm

/-! ## Chains of links -/

/-- The chain of a numbered one among chains; the root has the empty chain. -/
def Leads (chains : List (List String)) (parent : Option Nat) (chain : List String) : Prop :=
  parent.elim (chain = []) fun i => chains[i]? = some chain

@[simp] theorem leads_none : Leads chains none chain ↔ chain = [] := Iff.rfl

@[simp] theorem leads_some : Leads chains (some i) chain ↔ chains[i]? = some chain := Iff.rfl

theorem Leads.concat (h : Leads chains parent before) (chain : List String) :
    Leads (chains ++ [chain]) parent before := by
  cases parent with
  | none => exact h
  | some i =>
    have hlt : i < chains.length := (List.getElem?_eq_some_iff.1 h).1
    rw [leads_some, List.getElem?_append_left hlt]
    exact h

/-- The links were made one after the other, each to a chain from the link one name before. -/
inductive Traces : List Link → List (List String) → Prop
  | nil : Traces [] []
  | concat {links : List Link} {chains : List (List String)} {parent : Option Nat}
      {before : List String} (h : Traces links chains) (hp : Leads chains parent before)
      (name : String) :
      Traces (links ++ [⟨links.length, parent, name⟩]) (chains ++ [before ++ [name]])

namespace Traces

theorem length_eq (h : Traces links chains) : links.length = chains.length := by
  induction h with
  | nil => rfl
  | concat h hp name ih => simp [ih]

theorem ne_nil (h : Traces links chains) (hc : chain ∈ chains) : chain ≠ [] := by
  induction h with
  | nil => cases hc
  | concat h hp name ih =>
    rcases List.mem_append.1 hc with hc | hc
    · exact ih hc
    · rw [List.mem_singleton.1 hc]
      simp

/-- A link follows the last name of its chain, from the link one name before. -/
theorem getElem?_eq (h : Traces links chains) (hc : chains[i]? = some chain) :
    ∃ before name parent, chain = before ++ [name] ∧ links[i]? = some ⟨i, parent, name⟩ ∧
      Leads chains parent before := by
  induction h with
  | nil => simp at hc
  | @concat links chains parent before h hp name ih =>
    have hlength := h.length_eq
    by_cases hi : i < chains.length
    · rw [List.getElem?_append_left hi] at hc
      obtain ⟨before', name', parent', hchain, hlink, hleads⟩ := ih hc
      refine ⟨before', name', parent', hchain, ?_, hleads.concat _⟩
      rwa [List.getElem?_append_left (by omega)]
    · have hi' : i = chains.length := by
        have hlt := (List.getElem?_eq_some_iff.1 hc).1
        simp at hlt
        omega
      subst hi'
      rw [List.getElem?_concat_length, Option.some.injEq] at hc
      refine ⟨before, name, parent, hc.symm, ?_, hp.concat _⟩
      rw [← hlength, List.getElem?_concat_length]

/-- The links from the root are those to chains of a single name. -/
theorem filter_root (h : Traces links chains) :
    (links.filter (·.parent.isNone)).map (fun link => [link.name]) =
      chains.filter (·.length = 1) := by
  induction h with
  | nil => rfl
  | @concat links chains parent before h hp name ih =>
    cases parent with
    | none =>
      rw [leads_none] at hp
      simp [hp, ih]
    | some i =>
      have hne : before ≠ [] := h.ne_nil (List.mem_of_getElem? hp)
      simp [hne, ih]

end Traces

/-- The links to chains: each follows the last name of its chain, from the link of the chain one
name before. No chain is empty, so those of a single name start from the root. -/
def linksOf (chains : List (List String)) : List Link :=
  chains.mapIdx fun i chain => ⟨i, chains.idxOf? chain.dropLast, lastName chain⟩

/-- A numbered chain among different ones is found under its number. -/
theorem Leads.idxOf?_eq (h : Leads chains parent before) (hn : chains.Nodup) (hne : [] ∉ chains) :
    chains.idxOf? before = parent := by
  cases parent with
  | none =>
    rw [leads_none] at h
    rw [h, List.idxOf?_eq_none_iff]
    exact hne
  | some i =>
    obtain ⟨hi, rfl⟩ := List.getElem?_eq_some_iff.1 h
    rw [List.idxOf?_eq_some_iff]
    refine ⟨hi, rfl, ?_⟩
    intro j hj heq
    rw [hn.getElem_inj_iff] at heq
    omega

/-- Different chains determine their links. -/
theorem Traces.eq_linksOf (h : Traces links chains) (hn : chains.Nodup) :
    links = linksOf chains := by
  have hne : [] ∉ chains := fun hm => h.ne_nil hm rfl
  apply List.ext_getElem?
  intro i
  rw [linksOf, List.getElem?_mapIdx]
  cases hc : chains[i]? with
  | none =>
    have hle : links.length ≤ i := by
      rw [h.length_eq]
      exact List.getElem?_eq_none_iff.1 hc
    simp [List.getElem?_eq_none hle]
  | some chain =>
    obtain ⟨before, name, parent, rfl, hlink, hleads⟩ := h.getElem?_eq hc
    simp [hlink, hleads.idxOf?_eq hn hne]

/-- The links read as chains from the root. A link starts behind an earlier one. -/
def chainsOf (links : List Link) : List (List String) :=
  links.foldl
    (fun chains link =>
      chains ++ [((link.parent.bind fun i => chains[i]?).getD []) ++ [link.name]]) []

theorem chainsOf_concat (links : List Link) (link : Link) :
    chainsOf (links ++ [link]) =
      chainsOf links ++
        [((link.parent.bind fun i => (chainsOf links)[i]?).getD []) ++ [link.name]] := by
  simp [chainsOf]

theorem Leads.getD_eq (h : Leads chains parent before) :
    (parent.bind fun i => chains[i]?).getD [] = before := by
  cases parent with
  | none => exact h.symm
  | some i =>
    rw [leads_some] at h
    simp [h]

namespace Traces

theorem chainsOf_eq (h : Traces links chains) : chainsOf links = chains := by
  induction h with
  | nil => rfl
  | concat h hp name ih => rw [chainsOf_concat, ih, hp.getD_eq]

/-- Links to different chains differ in where they start or in what they follow. -/
theorem nodup_of_nodup (h : Traces links chains) (hn : chains.Nodup) :
    (links.map fun link => (link.parent, link.name)).Nodup := by
  have hmap : chains = (links.map fun link => (link.parent, link.name)).map fun key =>
      (key.1.bind fun i => chains[i]?).getD [] ++ [key.2] := by
    apply List.ext_getElem?
    intro i
    cases hc : chains[i]? with
    | none =>
      have hle : links.length ≤ i := by
        rw [h.length_eq]
        exact List.getElem?_eq_none_iff.1 hc
      simp [List.getElem?_eq_none hle]
    | some chain =>
      obtain ⟨before, name, parent, rfl, hlink, hleads⟩ := h.getElem?_eq hc
      simp [hlink, hleads.getD_eq]
  rw [hmap] at hn
  exact hn.of_map _

end Traces

end Criteria.Relation
