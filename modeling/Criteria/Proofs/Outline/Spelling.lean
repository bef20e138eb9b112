import Mathlib
import Criteria.Proofs.Outline.Nesting
import Criteria.Proofs.Outline.Parts

/-!
# Spellings of outlines

The grammar of outlines as a relation between an outline and its texts. Routes
stand between commas and names between points; blank texts may stand among
either, and white space around each. Reading takes every spelling of a
well-formed outline back to that outline.

## Main definitions

* `Outline.WellFormed`: chains of names, each with at most one group at its end.
* `Outline.Spells`: the texts of an outline.
-/

namespace Criteria

open Text (Blank trim)

/-! ## Well-formed outlines -/

/-- A name that is not empty, has nothing to trim and holds none of the four marks. -/
structure IsName (name : String) : Prop where
  ne_nil : name.toList ≠ []
  trimmed : trim name.toList = name.toList
  plain : ∀ c ∈ name.toList, c ≠ '.' ∧ c ≠ ',' ∧ c ≠ '[' ∧ c ≠ ']'

instance (name : String) : Decidable (IsName name) :=
  decidable_of_iff (name.toList ≠ [] ∧ trim name.toList = name.toList ∧
      name.toList.all fun c => c ≠ '.' ∧ c ≠ ',' ∧ c ≠ '[' ∧ c ≠ ']')
    ⟨fun ⟨hne, ht, hp⟩ => ⟨hne, ht, by simpa using hp⟩,
      fun h => ⟨h.ne_nil, h.trimmed, by simpa using h.plain⟩⟩

/-- A chain of names, or one that ends with a group of well-formed routes. The chain in front of a
group, and the group itself, may be empty. -/
inductive Route.WellFormed : Route → Prop
  | chain {names : List String} (ne_nil : names ≠ []) (hn : ∀ name ∈ names, IsName name) :
      Route.WellFormed (Route.chain names)
  | group {names : List String} {routes : List Route} (hn : ∀ name ∈ names, IsName name)
      (hr : ∀ route ∈ routes, Route.WellFormed route) :
      Route.WellFormed (Route.chain names ++ [.group routes])

/-- All routes are well-formed. -/
def Outline.WellFormed (outline : Outline) : Prop := ∀ route ∈ outline, Route.WellFormed route

/-! ## Spellings -/

/-- Texts that spell the items of a list one by one, with blank texts among them. -/
inductive Spaced {α : Type} (Spells : α → List Char → Prop) : List α → List (List Char) → Prop
  | nil : Spaced Spells [] []
  | blank {xs : List α} {text : List Char} {texts : List (List Char)} (hb : Blank text)
      (hs : Spaced Spells xs texts) : Spaced Spells xs (text :: texts)
  | item {x : α} {xs : List α} {text : List Char} {texts : List (List Char)}
      (hx : Spells x text) (hs : Spaced Spells xs texts) : Spaced Spells (x :: xs) (text :: texts)

/-- A name between white space. -/
inductive NameSpells : String → List Char → Prop
  | padded {name : String} {before after : List Char} (hb : Blank before) (ha : Blank after) :
      NameSpells name (before ++ (name.toList ++ after))

/-- The texts of a route: its names between points, and its group in brackets, behind which white
space may follow. -/
inductive Route.Spells : Route → List Char → Prop
  | chain {names : List String} {pieces : List (List Char)} (hp : Spaced NameSpells names pieces) :
      Route.Spells (Route.chain names) (['.'].intercalate pieces)
  | group {names : List String} {routes : List Route} {pieces parts : List (List Char)}
      {after : List Char} (hp : Spaced NameSpells names pieces)
      (hr : Spaced Route.Spells routes parts) (ha : Blank after) :
      Route.Spells (Route.chain names ++ [.group routes])
        (['.'].intercalate pieces ++ '[' :: ([','].intercalate parts ++ ']' :: after))

/-- The text spells the outline: its routes between commas. -/
def Outline.Spells (outline : Outline) (text : String) : Prop :=
  ∃ parts, Spaced Route.Spells outline parts ∧ text.toList = [','].intercalate parts

/-! ## Parts of well-formed routes -/

namespace Route

@[simp] theorem chain_nil : chain [] = [] := rfl

@[simp] theorem chain_cons (name : String) (names : List String) :
    chain (name :: names) = .attribute name :: chain names := rfl

theorem chain_injective : Function.Injective chain :=
  List.map_injective_iff.2 fun _ _ h => by injection h

theorem group_not_mem_chain (names : List String) (routes : Outline) :
    Step.group routes ∉ chain names := by
  simp [chain]

theorem wellFormed_chain_iff {names : List String} :
    WellFormed (chain names) ↔ names ≠ [] ∧ ∀ name ∈ names, IsName name := by
  constructor
  · intro h
    generalize hr : chain names = route at h
    cases h with
    | chain hne hn =>
      obtain rfl := chain_injective hr
      exact ⟨hne, hn⟩
    | @group names' routes hn hg =>
      have hm := group_not_mem_chain names routes
      rw [hr] at hm
      exact absurd (by simp) hm
  · rintro ⟨hne, hn⟩
    exact .chain hne hn

theorem wellFormed_group_iff {names : List String} {routes : Outline} :
    WellFormed (chain names ++ [.group routes]) ↔
      (∀ name ∈ names, IsName name) ∧ Outline.WellFormed routes := by
  constructor
  · intro h
    generalize hr : chain names ++ [.group routes] = route at h
    cases h with
    | @chain names' hne hn =>
      have hm := group_not_mem_chain names' routes
      rw [← hr] at hm
      exact absurd (by simp) hm
    | group hn hg =>
      obtain ⟨hc, hl⟩ := List.append_inj' hr rfl
      obtain rfl := chain_injective hc
      obtain rfl : routes = _ := by simpa using hl
      exact ⟨hn, hg⟩
  · rintro ⟨hn, hg⟩
    exact .group hn hg

end Route

/-! ## Reading spelled names -/

theorem IsName.not_mem {name : String} {c : Char} (h : IsName name)
    (hc : c ∈ ['.', ',', '[', ']']) :
    c ∉ name.toList := by
  intro hm
  have hp := h.plain c hm
  simp only [List.mem_cons, List.not_mem_nil, or_false] at hc
  tauto

variable {names : List String} {pieces : List (List Char)}

/-- Nothing but a point could be a mark in the text of a chain. -/
theorem Spaced.not_mem_of_mem {c : Char} (hc : c ∈ ['.', ',', '[', ']'])
    (hs : Spaced NameSpells names pieces) (hn : ∀ name ∈ names, IsName name) :
    ∀ piece ∈ pieces, c ∉ piece := by
  have hcb : Text.isBlank c = false := by
    simp only [List.mem_cons, List.not_mem_nil, or_false] at hc
    rcases hc with rfl | rfl | rfl | rfl <;> decide
  induction hs with
  | nil => simp
  | blank hb hs ih =>
    intro piece hp
    rcases List.mem_cons.1 hp with rfl | hp
    · exact hb.not_mem hcb
    · exact ih hn piece hp
  | item hx hs ih =>
    intro piece hp
    rcases List.mem_cons.1 hp with rfl | hp
    · cases hx with
      | padded hb ha =>
        have hname := (hn _ List.mem_cons_self).not_mem hc
        simp [hb.not_mem hcb, ha.not_mem hcb, hname]
    · exact ih (fun name h => hn name (List.mem_cons_of_mem _ h)) piece hp

theorem not_mem_intercalate {c m : Char} {pieces : List (List Char)} (hcm : c ≠ m)
    (h : ∀ piece ∈ pieces, c ∉ piece) : c ∉ [m].intercalate pieces := by
  induction pieces with
  | nil => simp
  | cons piece pieces ih =>
    have hp := h piece List.mem_cons_self
    have ht := ih fun p hm => h p (List.mem_cons_of_mem piece hm)
    cases pieces with
    | nil => simpa using hp
    | cons next pieces =>
      rw [List.intercalate_cons_cons]
      simp [hp, hcm, ht]

namespace Outline

/-- The names of a spelled chain are read back. -/
theorem names_of_spaced (hs : Spaced NameSpells names pieces) (hn : ∀ name ∈ names, IsName name) :
    Outline.names (['.'].intercalate pieces) = names := by
  rw [names_intercalate]
  induction hs with
  | nil => rfl
  | blank hb hs ih =>
    have hnone := names_append_blank hb []
    rw [List.nil_append] at hnone
    rw [List.flatMap_cons, hnone, ih hn]
    rfl
  | item hx hs ih =>
    rw [List.forall_mem_cons] at hn
    cases hx with
    | padded hb ha =>
      rw [List.flatMap_cons, names_blank_append hb, names_append_blank ha,
        names_toList hn.1.ne_nil hn.1.trimmed (hn.1.not_mem (by simp)), ih hn.2]
      rfl

/-! ## Reading spelled routes -/

theorem closed_of_blank {cs : List Char} (h : Blank cs) : Closed cs := by
  refine closed_of_not_mem fun c hc => h.not_mem ?_
  simp only [List.mem_cons, List.not_mem_nil, or_false] at hc
  rcases hc with rfl | rfl | rfl <;> decide

theorem closed_of_spaced_names (hs : Spaced NameSpells names pieces)
    (hn : ∀ name ∈ names, IsName name) : Closed (['.'].intercalate pieces) := by
  refine closed_of_not_mem fun c hc => not_mem_intercalate ?_
    (hs.not_mem_of_mem (List.mem_cons_of_mem '.' hc) hn)
  simp only [List.mem_cons, List.not_mem_nil, or_false] at hc
  rcases hc with rfl | rfl | rfl <;> decide

mutual

theorem closed_of_spells {route : Route} {text : List Char} :
    Route.Spells route text → Route.WellFormed route → Closed text
  | .chain hp, hw => closed_of_spaced_names hp (Route.wellFormed_chain_iff.1 hw).2
  | .group hp hr ha, hw => by
    obtain ⟨hn, hg⟩ := Route.wellFormed_group_iff.1 hw
    have hgroup := closed_brackets (closed_of_spaced hr hg)
    simpa using (closed_of_spaced_names hp hn).append (hgroup.append (closed_of_blank ha))

theorem closed_of_spaced {routes : List Route} {parts : List (List Char)} :
    Spaced Route.Spells routes parts → Outline.WellFormed routes → ∀ part ∈ parts, Closed part
  | .nil, _ => by simp
  | .blank hb hs, hw => by
    rw [List.forall_mem_cons]
    exact ⟨closed_of_blank hb, closed_of_spaced hs hw⟩
  | .item hx hs, hw => by
    rw [Outline.WellFormed, List.forall_mem_cons] at hw
    rw [List.forall_mem_cons]
    exact ⟨closed_of_spells hx hw.1, closed_of_spaced hs hw.2⟩

end

/-- The text of a chain with a name in it is not blank, and holds no bracket. -/
theorem parsePart_of_spaced_names (hne : names ≠ []) (hn : ∀ name ∈ names, IsName name)
    (hs : Spaced NameSpells names pieces) :
    parsePart (['.'].intercalate pieces) = some (Route.chain names) := by
  have hnames := names_of_spaced hs hn
  have hbracket : '[' ∉ ['.'].intercalate pieces :=
    not_mem_intercalate (by decide) (hs.not_mem_of_mem (by simp) hn)
  have htrim : trim (['.'].intercalate pieces) ≠ [] := by
    intro h
    rw [← names_trim, h] at hnames
    exact hne hnames.symm
  rw [parsePart_chain hbracket htrim, hnames]

/-- Splitting cuts between closed parts and nowhere else. -/
theorem parseChars_intercalate {parts : List (List Char)} (h : ∀ part ∈ parts, Closed part) :
    parseChars ([','].intercalate parts) = parts.filterMap parsePart := by
  by_cases hne : parts = []
  · subst hne
    simp [parseChars_eq, splitLevel, parsePart_of_blank Text.blank_nil]
  · rw [parseChars_eq, splitLevel_intercalate hne (fun part hp => (h part hp).whole 0 le_rfl)
      fun part hp => (h part (List.dropLast_subset parts hp)).depth_eq]

mutual

theorem parsePart_of_spells {route : Route} {text : List Char} :
    Route.Spells route text → Route.WellFormed route → parsePart text = some route
  | .chain hp, hw => by
    obtain ⟨hne, hn⟩ := Route.wellFormed_chain_iff.1 hw
    exact parsePart_of_spaced_names hne hn hp
  | .group hp hr ha, hw => by
    obtain ⟨hn, hg⟩ := Route.wellFormed_group_iff.1 hw
    have hbracket : '[' ∉ ['.'].intercalate _ :=
      not_mem_intercalate (by decide) (hp.not_mem_of_mem (by simp) hn)
    rw [parsePart_group hbracket ha, names_of_spaced hp hn,
      parseChars_intercalate (closed_of_spaced hr hg), filterMap_parsePart hr hg]

theorem filterMap_parsePart {routes : List Route} {parts : List (List Char)} :
    Spaced Route.Spells routes parts → Outline.WellFormed routes →
      parts.filterMap parsePart = routes
  | .nil, _ => rfl
  | .blank hb hs, hw => by
    rw [List.filterMap_cons_none (parsePart_of_blank hb), filterMap_parsePart hs hw]
  | .item hx hs, hw => by
    rw [Outline.WellFormed, List.forall_mem_cons] at hw
    rw [List.filterMap_cons_some (parsePart_of_spells hx hw.1), filterMap_parsePart hs hw.2]

end

/-- Reading takes a spelling of a well-formed outline back to the outline. -/
theorem parse_of_spells {outline : Outline} {text : String} (hw : outline.WellFormed)
    (hs : outline.Spells text) : parse text = outline := by
  obtain ⟨parts, hparts, htext⟩ := hs
  rw [parse, htext, parseChars_intercalate (closed_of_spaced hparts hw)]
  exact filterMap_parsePart hparts hw

/-- A text of nothing but white space spells the outline without routes. -/
theorem parse_of_isBlankText {text : String} (h : Text.isBlankText text = true) :
    parse text = [] := by
  have hblank : Blank text.toList := by
    rwa [Text.isBlankText, List.isEmpty_iff, Text.trim_eq_nil_iff] at h
  have hnone : WellFormed [] := fun _ hroute => absurd hroute List.not_mem_nil
  exact parse_of_spells hnone ⟨[text.toList], .blank hblank .nil, by simp⟩

end Outline

/-! ## Writing -/

theorem Spaced.append {α : Type} {Spells : α → List Char → Prop} {xs ys : List α}
    {texts more : List (List Char)} (hs : Spaced Spells xs texts) (hm : Spaced Spells ys more) :
    Spaced Spells (xs ++ ys) (texts ++ more) := by
  induction hs with
  | nil => exact hm
  | blank hb _ ih => exact .blank hb ih
  | item hx _ ih => exact .item hx ih

theorem spaced_map {α : Type} {Spells : α → List Char → Prop} {write : α → List Char}
    {xs : List α} (h : ∀ x ∈ xs, Spells x (write x)) : Spaced Spells xs (xs.map write) := by
  induction xs with
  | nil => exact .nil
  | cons x xs ih =>
    rw [List.forall_mem_cons] at h
    exact .item h.1 (ih h.2)

theorem spaced_names (names : List String) : Spaced NameSpells names (names.map String.toList) := by
  refine spaced_map fun name _ => ?_
  simpa using @NameSpells.padded name [] [] Text.blank_nil Text.blank_nil

/-- What comes last stands behind the last mark. -/
theorem intercalate_append_singleton (mark last : List Char) (texts : List (List Char)) :
    mark.intercalate (texts ++ [last]) = mark.intercalate (texts ++ [[]]) ++ last := by
  induction texts with
  | nil => simp
  | cons text texts ih =>
    rw [List.cons_append, List.cons_append, List.intercalate_cons_of_ne_nil (by simp),
      List.intercalate_cons_of_ne_nil (by simp), ih]
    simp

namespace Route

theorem toList_render (route : Route) :
    (render route).toList = ['.'].intercalate (route.map fun step => step.render.toList) := by
  rw [render, renderSteps_eq_map, String.toList_intercalate, List.map_map]
  rfl

theorem toList_render_chain (names : List String) :
    (render (chain names)).toList = ['.'].intercalate (names.map String.toList) := by
  rw [toList_render, chain, List.map_map]
  rfl

end Route

theorem Outline.toList_render (outline : Outline) :
    outline.render.toList =
      [','].intercalate (outline.map fun route => (Route.render route).toList) := by
  rw [render, renderRoutes_eq_map, String.toList_intercalate, List.map_map]
  rfl

/-- The point before a group stands behind a blank last piece of the chain. -/
theorem Route.toList_render_group (names : List String) (routes : Outline) :
    (Route.render (Route.chain names ++ [.group routes])).toList =
      ['.'].intercalate (names.map String.toList ++ [[]]) ++
        '[' :: (routes.render.toList ++ [']']) := by
  have hgroup : (Step.group routes).render.toList = '[' :: (routes.render.toList ++ [']']) := by
    simp [Step.render, Outline.render]
  rw [Route.toList_render, List.map_append, List.map_singleton, hgroup,
    intercalate_append_singleton, Route.chain, List.map_map]
  rfl

/-- A well-formed route spells itself. -/
theorem Route.spells_render {route : Route} (h : Route.WellFormed route) :
    Route.Spells route (Route.render route).toList := by
  induction h with
  | chain =>
    rw [toList_render_chain]
    exact .chain (spaced_names _)
  | @group names routes hn hr ih =>
    rw [toList_render_group, Outline.toList_render]
    have hpieces := (spaced_names names).append (.blank Text.blank_nil .nil)
    rw [List.append_nil] at hpieces
    exact .group hpieces (spaced_map ih) Text.blank_nil

namespace Outline

theorem spells_render {outline : Outline} (h : outline.WellFormed) :
    outline.Spells outline.render :=
  ⟨_, spaced_map fun route hr => Route.spells_render (h route hr), toList_render outline⟩

/-- **Reading takes every spelling of a well-formed outline back to the outline**, the one it is
written with among them. -/
theorem parse_every_spelling {outline : Outline} (h : outline.WellFormed) :
    (∀ text, outline.Spells text → parse text = outline) ∧ parse outline.render = outline :=
  ⟨fun _ hs => parse_of_spells h hs, parse_of_spells h (spells_render h)⟩

/-- An outline with a group in a group, the inner one empty and without a chain. -/
def nestedOutline : Outline :=
  [Route.chain ["owner"] ++ [.group [Route.chain ["name"], Route.chain [] ++ [.group []]]]]

theorem wellFormed_nestedOutline : nestedOutline.WellFormed := by
  have howner : ∀ name ∈ ["owner"], IsName name := by
    rw [List.forall_mem_singleton]
    decide
  have hname : ∀ name ∈ ["name"], IsName name := by
    rw [List.forall_mem_singleton]
    decide
  rw [nestedOutline, WellFormed, List.forall_mem_singleton]
  refine .group howner ?_
  rw [List.forall_mem_cons, List.forall_mem_singleton]
  exact ⟨.chain (List.cons_ne_nil _ _) hname, .group (by simp) (by simp)⟩

/-- White space, blank pieces and blank items stand wherever they may. -/
theorem spells_nestedOutline : nestedOutline.Spells " owner .[ name,, [ ] ]\u00a0," := by
  have hblank : Blank [' '] := by decide
  have howner : Spaced NameSpells ["owner"] [" owner ".toList, []] :=
    .item (@NameSpells.padded "owner" [' '] [' '] hblank hblank) (.blank Text.blank_nil .nil)
  have hname : Route.Spells (Route.chain ["name"]) " name".toList :=
    .chain (.item (@NameSpells.padded "name" [' '] [] hblank Text.blank_nil) .nil)
  have hempty : Route.Spells (Route.chain [] ++ [.group []]) " [ ] ".toList :=
    .group (.blank hblank .nil) (.blank hblank .nil) hblank
  have hparts := Spaced.item hname (.blank Text.blank_nil (.item hempty .nil))
  have hafter : Blank ['\u00a0'] := by decide
  exact ⟨_, .item (.group howner hparts hafter) (.blank Text.blank_nil .nil), by decide⟩

theorem parse_every_spelling_nested :
    nestedOutline.WellFormed ∧ nestedOutline.Spells " owner .[ name,, [ ] ]\u00a0," ∧
      parse " owner .[ name,, [ ] ]\u00a0," = nestedOutline ∧
      parse nestedOutline.render = nestedOutline :=
  ⟨wellFormed_nestedOutline, spells_nestedOutline,
    (parse_every_spelling wellFormed_nestedOutline).1 _ spells_nestedOutline,
    (parse_every_spelling wellFormed_nestedOutline).2⟩

end Outline

end Criteria
