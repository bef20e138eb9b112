import Mathlib
import Criteria.Proofs.Outline.Parts

/-!
# Names in outlines

The names of an outline, those in its groups included. The leaves have no other
names, and whatever holds of the names of all chains in texts holds of all names
of an outline that was read.
-/

namespace Criteria

mutual

/-- The names in a route, in order, each chain before its group. -/
def Route.allNames : List Step → List String
  | [] => []
  | .attribute name :: rest => name :: Route.allNames rest
  | .group routes :: rest => Outline.allNames routes ++ Route.allNames rest

/-- The names in an outline, in order. -/
def Outline.allNames : List (List Step) → List String
  | [] => []
  | route :: routes => Route.allNames route ++ Outline.allNames routes

end

theorem Outline.mem_allNames {outline : Outline} {name : String} :
    name ∈ Outline.allNames outline ↔ ∃ route ∈ outline, name ∈ Route.allNames route := by
  induction outline with
  | nil => simp [Outline.allNames]
  | cons route routes ih => simp [Outline.allNames, ih]

theorem Route.allNames_append (r s : List Step) :
    Route.allNames (r ++ s) = Route.allNames r ++ Route.allNames s := by
  induction r with
  | nil => simp [Route.allNames]
  | cons step r ih => cases step <;> simp [Route.allNames, ih]

theorem Route.allNames_chain (names : List String) :
    Route.allNames (Route.chain names) = names := by
  induction names with
  | nil => simp [Route.chain, Route.allNames]
  | cons name names ih =>
    rw [Route.chain] at ih
    simp [Route.chain, Route.allNames, ih]

/-! ## Leaves -/

mutual

/-- A leaf of a route has names of its beginning and of the route. -/
theorem Route.mem_of_mem_leavesFrom : (route : List Step) → {before leaf : List String} →
    leaf ∈ Route.leavesFrom before route →
      ∀ name ∈ leaf, name ∈ before ∨ name ∈ Route.allNames route
  | [], before, leaf, h, name, hn => by
    rw [Route.leavesFrom] at h
    split at h
    · cases h
    · rw [List.mem_singleton.1 h] at hn
      exact .inl hn
  | [.group (route :: routes)], before, leaf, h, name, hn => by
    rw [Route.leavesFrom, List.mem_append] at h
    simp only [Route.allNames, Outline.allNames, List.append_nil, List.mem_append]
    rcases h with h | h
    · rcases Route.mem_of_mem_leavesFrom route h name hn with hb | hr
      · exact .inl hb
      · exact .inr (.inl hr)
    · rcases Outline.mem_of_mem_leavesFrom routes h name hn with hb | hr
      · exact .inl hb
      · exact .inr (.inr hr)
  | .attribute a :: rest, before, leaf, h, name, hn => by
    rw [Route.leavesFrom] at h
    rw [Route.allNames, List.mem_cons]
    rcases Route.mem_of_mem_leavesFrom rest h name hn with hb | hr
    · rcases List.mem_append.1 hb with hb | hb
      · exact .inl hb
      · exact .inr (.inl (List.mem_singleton.1 hb))
    · exact .inr (.inr hr)
  | [.group []], before, leaf, h, name, hn => by
    rw [Route.leavesFrom] at h
    · exact (Route.mem_of_mem_leavesFrom [] h name hn).imp_right fun hr => by
        simp [Route.allNames] at hr
    · simp
  | .group routes :: step :: rest, before, leaf, h, name, hn => by
    rw [Route.leavesFrom] at h
    · rw [Route.allNames, List.mem_append]
      exact (Route.mem_of_mem_leavesFrom (step :: rest) h name hn).imp_right .inr
    · simp

/-- A leaf of routes that share their beginning has names of it and of the routes. -/
theorem Outline.mem_of_mem_leavesFrom : (routes : List (List Step)) → {before leaf : List String} →
    leaf ∈ Outline.leavesFrom before routes →
      ∀ name ∈ leaf, name ∈ before ∨ name ∈ Outline.allNames routes
  | [], before, leaf, h, name, hn => by
    rw [Outline.leavesFrom] at h
    cases h
  | route :: routes, before, leaf, h, name, hn => by
    rw [Outline.leavesFrom, List.mem_append] at h
    rw [Outline.allNames, List.mem_append]
    rcases h with h | h
    · exact (Route.mem_of_mem_leavesFrom route h name hn).imp_right .inl
    · exact (Outline.mem_of_mem_leavesFrom routes h name hn).imp_right .inr

end

/-- The leaves of an outline have no names but its own. -/
theorem Outline.mem_allNames_of_leaf {outline : Outline} {leaf : List String}
    (h : leaf ∈ outline.leaves) {name : String} (hn : name ∈ leaf) :
    name ∈ Outline.allNames outline := by
  rcases Outline.mem_of_mem_leavesFrom outline h name hn with hb | hr
  · cases hb
  · exact hr

/-! ## Names of what was read -/

namespace Outline

variable {P : String → Prop}

/-- What holds of the names of all chains holds of all names that are read. -/
theorem forall_allNames_parseChars (hP : ∀ cs, '[' ∉ cs → ∀ name ∈ names cs, P name)
    (cs : List Char) : ∀ name ∈ allNames (parseChars cs), P name := by
  induction hlength : cs.length using Nat.strong_induction_on generalizing cs with
  | _ n ih =>
    subst hlength
    intro name hn
    obtain ⟨route, hroute, hn⟩ := mem_allNames.1 hn
    rw [parseChars_eq, List.mem_filterMap] at hroute
    obtain ⟨part, hpart, hparsed⟩ := hroute
    rw [parsePart, Option.map_eq_some_iff] at hparsed
    obtain ⟨⟨chain, inside⟩, hcut, rfl⟩ := hparsed
    rw [Route.allNames_append, Route.allNames_chain, List.mem_append] at hn
    rcases hn with hn | hn
    · have hchain : chain = names ((Text.trim part).takeWhile (· != '[')) := by
        rw [cutPart] at hcut
        dsimp only at hcut
        split at hcut
        · cases hcut
        · split at hcut <;> cases hcut <;> rfl
      have hbracket : '[' ∉ (Text.trim part).takeWhile (· != '[') := by
        intro hm
        simpa using List.mem_takeWhile_imp hm
      exact hP _ hbracket name (hchain ▸ hn)
    · cases inside with
      | none => simp [Route.allNames] at hn
      | some inside =>
        have hlt : inside.length < cs.length :=
          Nat.lt_of_lt_of_le (length_lt_of_cutPart hcut) (length_le_of_mem_splitLevel hpart)
        have hinside : name ∈ allNames (parseChars inside) := by
          simpa [Route.allNames] using hn
        exact ih inside.length hlt inside rfl name hinside

theorem forall_allNames_parse (hP : ∀ cs, '[' ∉ cs → ∀ name ∈ names cs, P name) (s : String) :
    ∀ name ∈ allNames (parse s), P name :=
  forall_allNames_parseChars hP s.toList

end Outline

end Criteria
