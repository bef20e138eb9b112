import Mathlib
import Criteria.Proofs.Outline.Commas

/-!
# Reading what was written

An outline that was read is written without white space, blank parts and blank
pieces. Reading that text gives the outline again, but for two kinds of outlines:
those with a route without steps, of which no text is left, and those where a
name has a closing bracket although another route follows, which the bracket then
hides behind a comma that does not cut.
-/

namespace Criteria.Outline

open Text (isBlank trim Blank)

variable {cs ds : List Char} {names : List String} {n : Nat} {t : Outline}

/-! ## Reading a legible outline again -/

/-- The routes of a legible outline are read again if each of them is. -/
theorem parseChars_render_of (hl : Legible t) (hr : ∀ route ∈ t, Route.Deep n route)
    (h : ∀ route ∈ t, parsePart (Route.render route).toList = some route) :
    parseChars t.render.toList = t := by
  by_cases hne : t = []
  · subst hne
    rw [parseChars_eq]
    simp [render, splitLevel, parsePart_of_blank Text.blank_nil]
  · have hwhole : ∀ part ∈ t.map fun route => (Route.render route).toList, Whole 0 part := by
      rw [List.forall_mem_map]
      exact fun route hroute => whole_render (hr route hroute) (hl.mem hroute) (by omega)
    rw [parseChars_eq, toList_render, splitLevel_intercalate (by simpa using hne) hwhole
      ((hl t List.mem_cons_self).2.depth_render hr), List.filterMap_map]
    exact (List.filterMap_congr h).trans List.filterMap_some

theorem parsePart_render {route : Route} (h : Route.Deep n route) (hl : Legible [route]) :
    parsePart (Route.render route).toList = some route := by
  induction h with
  | @chain n names hn =>
    have hopening : '[' ∉ ['.'].intercalate (names.map String.toList ++ []) :=
      not_mem_chain hn (by simp) (by simp)
    have hnames : Outline.names (['.'].intercalate (names.map String.toList ++ [])) = names :=
      names_of_areRead hn rfl
    have hne : names ≠ [] := by
      rintro rfl
      exact (hl [[]] List.mem_cons_self).1 (List.mem_singleton_self [])
    rw [List.append_nil] at hopening hnames
    have htrim : trim (['.'].intercalate (names.map String.toList)) ≠ [] := by
      intro hnil
      rw [← names_trim, hnil] at hnames
      exact hne hnames.symm
    rw [Route.toList_render_chain, parsePart_chain hopening htrim, hnames]
  | @group n names routes hn hr hone ih =>
    have hinner : Legible routes := (throughout_group_iff.1 hl).2
    have hopening : '[' ∉ ['.'].intercalate (names.map String.toList ++ [[]]) :=
      not_mem_chain hn (by simp) (by simp)
    have hroutes : parseChars routes.render.toList = routes :=
      parseChars_render_of hinner hr fun route hroute => ih route hroute (hinner.mem hroute)
    rw [Route.toList_render_group, parsePart_group hopening Text.blank_nil,
      names_of_areRead hn (by simp [Outline.names]), hroutes]

/-! ## Points behind names -/

/-- A point stands behind what can be the end of a name. -/
def Stepped (cs : List Char) : Prop :=
  ∀ before after, cs = before ++ '.' :: after →
    ∃ c, before.getLast? = some c ∧ isBlank c = false ∧ c ∉ ['.', ',', '[']

theorem stepped_of_not_mem (h : '.' ∉ cs) : Stepped cs := by
  rintro before after rfl
  simp at h

theorem Stepped.append (hc : Stepped cs) (hd : Stepped ds) : Stepped (cs ++ ds) := by
  intro before after heq
  rcases List.append_eq_append_iff.1 heq with ⟨middle, rfl, hds⟩ | ⟨middle, rfl, hafter⟩
  · obtain ⟨c, hlast, hmark⟩ := hd middle after hds
    exact ⟨c, by rw [List.getLast?_append, hlast, Option.some_or], hmark⟩
  · cases middle with
    | nil =>
      obtain ⟨c, hlast, -⟩ := hd [] after hafter.symm
      cases hlast
    | cons m middle =>
      rw [List.cons_append, List.cons.injEq] at hafter
      exact hc before middle (by rw [hafter.1])

/-- What is behind a comma or an opening bracket begins with no point. -/
theorem Stepped.behind {m : Char} (hm : m ∈ [',', '[']) (h : Stepped (cs ++ m :: ds)) :
    Stepped ds := by
  rintro before after rfl
  obtain ⟨c, hlast, hb, hmark⟩ := h (cs ++ m :: before) after (by simp)
  refine ⟨c, ?_, hb, hmark⟩
  cases before with
  | nil =>
    rw [List.getLast?_concat, Option.some.injEq] at hlast
    rw [← hlast] at hmark
    exact absurd (List.mem_cons_of_mem '.' hm) hmark
  | cons first before =>
    rwa [List.getLast?_append_cons, List.getLast?_cons_cons] at hlast

theorem Stepped.front (h : Stepped (cs ++ ds)) : Stepped cs := by
  rintro before after rfl
  exact h before (after ++ ds) (by simp)

/-- A text in which points stand behind names only is blank if no name is read in it. -/
theorem Stepped.blank (h : Stepped cs) (hnames : Outline.names cs = []) : Blank cs := by
  have hall : ∀ c ∈ cs, isBlank c = true ∨ c = '.' := by
    intro c hc
    by_contra hnot
    rw [not_or, Bool.not_eq_true] at hnot
    have hcount := count_names hnot.1 hnot.2 cs
    rw [hnames, List.flatMap_nil, List.count_nil] at hcount
    exact absurd hc (List.count_eq_zero.1 hcount.symm)
  intro c hc
  refine (hall c hc).resolve_right ?_
  rintro rfl
  obtain ⟨before, after, rfl⟩ := List.append_of_mem hc
  obtain ⟨c, hlast, hb, hmark⟩ := h before after rfl
  have hm : c ∈ before := List.mem_of_getLast? hlast
  rcases hall c (List.mem_append_left _ hm) with hblank | rfl
  · rw [hb] at hblank
    cases hblank
  · exact hmark (by simp)

/-- Where points stand behind names only, a text has no routes without steps. -/
theorem Reads.throughout_steps (h : Reads cs t) (hs : Stepped cs) :
    t.Throughout fun routes => [] ∉ routes := by
  induction h with
  | blank hb => simp [Throughout, subgroups]
  | @chain cs hw ho hb =>
    rw [throughout_chain_iff, List.mem_singleton]
    intro hnil
    exact hb (hs.blank (List.map_eq_nil_iff.1 hnil.symm))
  | group hw ho ha hr ih =>
    exact throughout_group_iff.2 ⟨by simp, ih (hs.behind (by simp)).front⟩
  | cut hw hz hr hm ihr ihm =>
    have hfirst := ihr hs.front
    have hsecond := ihm (hs.behind (by simp))
    refine hfirst.append hsecond ?_
    rw [List.mem_append]
    exact not_or.2 ⟨hfirst _ List.mem_cons_self, hsecond _ List.mem_cons_self⟩

/-- A name that was read ends with what a point can stand behind. -/
theorem getLast?_of_isRead {name : String} (h : IsRead name) :
    ∃ c, name.toList.getLast? = some c ∧ isBlank c = false ∧ c ∉ ['.', ',', '['] := by
  obtain ⟨front, c, hname⟩ := List.eq_nil_or_concat name.toList |>.resolve_left h.ne_nil
  rw [List.concat_eq_append] at hname
  refine ⟨c, by rw [hname, List.getLast?_concat], ?_, ?_⟩
  · by_contra hb
    rw [Bool.not_eq_false] at hb
    have hblank : Blank [c] := by simpa [Blank] using hb
    have htrimmed := h.trimmed
    rw [hname, Text.trim_append_blank hblank] at htrimmed
    have hlength := length_trim_le front
    rw [htrimmed, List.length_append, List.length_singleton] at hlength
    omega
  · intro hc
    refine h.plain c hc ?_
    rw [hname]
    exact List.mem_append_right front (List.mem_singleton_self c)

theorem stepped_name_point {name : String} (h : IsRead name) : Stepped (name.toList ++ ['.']) := by
  intro before after heq
  have hpoint : '.' ∉ name.toList := h.plain '.' (by simp)
  obtain ⟨rfl, -, -⟩ := (List.append_cons_inj_of_notMem hpoint List.not_mem_nil).1 heq
  exact getLast?_of_isRead h

theorem stepped_points (hn : ∀ name ∈ names, IsRead name) :
    Stepped (['.'].intercalate (names.map String.toList ++ [[]])) := by
  induction names with
  | nil => exact stepped_of_not_mem (by simp)
  | cons name names ih =>
    rw [List.forall_mem_cons] at hn
    rw [List.map_cons, List.cons_append, List.intercalate_cons_of_ne_nil (by simp)]
    exact (stepped_name_point hn.1).append (ih hn.2)

theorem stepped_intercalate {parts : List (List Char)} (h : ∀ part ∈ parts, Stepped part) :
    Stepped ([','].intercalate parts) := by
  induction parts with
  | nil => exact stepped_of_not_mem (by simp)
  | cons part parts ih =>
    rw [List.forall_mem_cons] at h
    cases parts with
    | nil => simpa using h.1
    | cons next parts =>
      rw [List.intercalate_cons_cons]
      exact (h.1.append (stepped_of_not_mem (by simp))).append (ih h.2)

/-- A route is written with points behind names only. -/
theorem stepped_render {route : Route} (h : Route.Deep n route) :
    Stepped (Route.render route).toList := by
  induction h with
  | @chain n names hn =>
    rw [Route.toList_render_chain]
    rcases List.eq_nil_or_concat names with rfl | ⟨front, name, rfl⟩
    · exact stepped_of_not_mem (by simp)
    · rw [List.concat_eq_append, List.forall_mem_append, List.forall_mem_singleton] at hn
      rw [List.concat_eq_append, List.map_append, List.map_singleton,
        intercalate_append_singleton]
      exact (stepped_points hn.1).append (stepped_of_not_mem (hn.2.plain '.' (by simp)))
  | @group n names routes hn hr hone ih =>
    have hroutes : Stepped routes.render.toList := by
      rw [toList_render]
      refine stepped_intercalate ?_
      rw [List.forall_mem_map]
      exact ih
    have hopening : Stepped ['['] := stepped_of_not_mem (by simp)
    have hclosing : Stepped [']'] := stepped_of_not_mem (by simp)
    rw [Route.toList_render_group]
    exact (stepped_points hn).append (hopening.append (hroutes.append hclosing))

/-! ## Reading what was written -/

/-- No closing bracket stands where no bracket is open. -/
def Opened (s : String) : Prop :=
  ∀ before, before <+: s.toList → before.count ']' ≤ before.count '['

instance (s : String) : Decidable (Opened s) :=
  decidable_of_iff (∀ before ∈ s.toList.inits, before.count ']' ≤ before.count '[')
    (by simp [Opened])

theorem Opened.deep {s : String} (h : Opened s) : Deep 0 s.toList := by
  intro before after heq
  have hle := h before ⟨_, heq.symm⟩
  rw [depth_eq_count]
  omega

/-- **The outline of a text is read again from what it is written as just when it is legible**: none
of its routes is without steps, and no closing bracket is left in the names of a route that another
one follows. The brackets of the text must not be closed before they are opened; whether all are
closed does not matter. -/
theorem parse_render_parse_iff {s : String} (h : Opened s) :
    parse (parse s).render = parse s ↔ Legible (parse s) := by
  obtain ⟨hdeep, -⟩ := (reads_parseChars s.toList).deep h.deep
  constructor
  · intro hagain
    have hreads : Reads (parse s).render.toList (parse s) := by
      conv => arg 2; rw [← hagain]
      exact reads_parseChars _
    have hcount : (parse s).render.toList.count ']' =
        (subgroups (parse s)).length + closings (allNames (parse s)) :=
      count_render (by decide) fun route hroute => (hdeep route hroute).count_render (.inr rfl)
    have hstepped : Stepped (parse s).render.toList := by
      rw [toList_render]
      refine stepped_intercalate ?_
      rw [List.forall_mem_map]
      exact fun route hroute => stepped_render (hdeep route hroute)
    exact fun routes hroutes => ⟨hreads.throughout_steps hstepped routes hroutes,
      hreads.throughout_tidy hcount.ge routes hroutes⟩
  · intro hlegible
    exact parseChars_render_of hlegible hdeep fun route hroute =>
      parsePart_render (hdeep route hroute) (hlegible.mem hroute)

/-- Blank parts and pieces are passed over, and the bracket that is left in the name `d]e` is in the
last route of its group. -/
theorem parse_render_parse_iff_lenient :
    Opened " k,, a . [ b . , c[d]e ] ," ∧ Legible (parse " k,, a . [ b . , c[d]e ] ,") ∧
      parse (parse " k,, a . [ b . , c[d]e ] ,").render = parse " k,, a . [ b . , c[d]e ] ," := by
  have hopened : Opened " k,, a . [ b . , c[d]e ] ," := by decide +kernel
  have hlegible : Legible (parse " k,, a . [ b . , c[d]e ] ,") := by decide +kernel
  exact ⟨hopened, hlegible, (parse_render_parse_iff hopened).2 hlegible⟩

/-- All brackets of these texts are opened and closed, and their outlines are not read again: the
first has one route, which is without steps, and the second has two, of which the first ends with
the group that holds the name `b]c`. -/
theorem not_reread_of_point_or_closing :
    (Opened "." ∧ ".".toList.count ']' = ".".toList.count '[' ∧
      parse (parse ".").render ≠ parse ".") ∧
      Opened "a[b]c,d" ∧ "a[b]c,d".toList.count ']' = "a[b]c,d".toList.count '[' ∧
      parse (parse "a[b]c,d").render ≠ parse "a[b]c,d" := by
  decide +kernel

end Criteria.Outline
