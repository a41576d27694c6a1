import FlatFile.Files.Path
import Mathlib

/-!
# Segments of paths

Cutting at a separator and joining with it undo each other (`Text.intercalate_cutAt`,
`Text.cutAt_intercalate`), so a path is known by its segments.  A path with an extension added has
the segments of the path, up to the one that gets the extension (`segments_of_withExtension?`): both
stand in one directory (`around`).
-/

namespace FlatFile

section CutAt
variable {α : Type} [DecidableEq α] (sep : α)

theorem Text.cutAt_ne_nil (s : List α) : Text.cutAt sep s ≠ [] := by
  cases s with
  | nil => simp [Text.cutAt]
  | cons a s =>
    rw [Text.cutAt]
    split
    · simp
    · split <;> simp

/-- The pieces with the separator between them are what was cut. -/
theorem Text.intercalate_cutAt (s : List α) : [sep].intercalate (Text.cutAt sep s) = s := by
  induction s with
  | nil => rfl
  | cons a s ih =>
    obtain ⟨p, ps, hcut⟩ := List.exists_cons_of_ne_nil (Text.cutAt_ne_nil sep s)
    rw [hcut] at ih
    rw [Text.cutAt, hcut]
    by_cases ha : a = sep
    · rw [if_pos ha, List.intercalate_cons_cons, ih, ha]
      rfl
    · rw [if_neg ha]
      simp only []
      rw [List.intercalate_cons_cons_left, ih]

/-- What holds no separator stays with the last piece. -/
theorem Text.cutAt_append {q : List α} (hq : sep ∉ q) (s : List α) :
    ∃ ps p, Text.cutAt sep s = ps ++ [p] ∧ Text.cutAt sep (s ++ q) = ps ++ [p ++ q] := by
  induction s with
  | nil =>
    refine ⟨[], [], rfl, ?_⟩
    induction q with
    | nil => rfl
    | cons a q ih =>
      obtain ⟨ha, hq⟩ := not_or.mp (List.mem_cons.not.mp hq)
      have hcut := ih hq
      simp only [List.nil_append] at hcut ⊢
      rw [Text.cutAt, if_neg (Ne.symm ha), hcut]
  | cons a s ih =>
    obtain ⟨ps, p, hs, hsq⟩ := ih
    rw [List.cons_append, Text.cutAt, Text.cutAt, hs, hsq]
    by_cases ha : a = sep
    · rw [if_pos ha, if_pos ha]
      exact ⟨[] :: ps, p, rfl, rfl⟩
    · rw [if_neg ha, if_neg ha]
      cases ps with
      | nil => exact ⟨[], a :: p, rfl, rfl⟩
      | cons p' ps => exact ⟨(a :: p') :: ps, p, rfl, rfl⟩

theorem Text.cutAt_of_not_mem {s : List α} (h : sep ∉ s) : Text.cutAt sep s = [s] := by
  obtain ⟨ps, p, hnil, hcut⟩ := Text.cutAt_append sep h []
  obtain ⟨rfl, rfl⟩ : ps = [] ∧ p = [] := by
    simpa [Text.cutAt, List.singleton_eq_append_iff] using hnil
  exact hcut

/-- A separator stands between two pieces. -/
theorem Text.cutAt_append_sep (s u : List α) :
    Text.cutAt sep (s ++ sep :: u) = Text.cutAt sep s ++ Text.cutAt sep u := by
  induction s with
  | nil => simp [Text.cutAt]
  | cons a s ih =>
    obtain ⟨q, qs, hcut⟩ := List.exists_cons_of_ne_nil (Text.cutAt_ne_nil sep s)
    rw [List.cons_append, Text.cutAt, Text.cutAt, ih, hcut]
    split <;> rfl

/-- No separator is left in a piece. -/
theorem Text.not_mem_of_mem_cutAt {s p : List α} (hp : p ∈ Text.cutAt sep s) : sep ∉ p := by
  induction s generalizing p with
  | nil =>
    rw [Text.cutAt, List.mem_singleton] at hp
    simp [hp]
  | cons a s ih =>
    obtain ⟨q, qs, hcut⟩ := List.exists_cons_of_ne_nil (Text.cutAt_ne_nil sep s)
    rw [hcut] at ih
    rw [Text.cutAt, hcut] at hp
    by_cases ha : a = sep
    · rw [if_pos ha] at hp
      rcases List.mem_cons.mp hp with rfl | hp
      · exact List.not_mem_nil
      · exact ih hp
    · rw [if_neg ha] at hp
      rcases List.mem_cons.mp hp with rfl | hp
      · exact List.mem_cons.not.mpr (not_or.mpr ⟨Ne.symm ha, ih List.mem_cons_self⟩)
      · exact ih (List.mem_cons_of_mem q hp)

/-- Pieces without the separator are found again. -/
theorem Text.cutAt_intercalate {ps : List (List α)} (hne : ps ≠ []) (h : ∀ p ∈ ps, sep ∉ p) :
    Text.cutAt sep ([sep].intercalate ps) = ps := by
  induction ps with
  | nil => exact absurd rfl hne
  | cons p ps ih =>
    have hp := h p List.mem_cons_self
    cases ps with
    | nil => rw [List.intercalate_singleton, Text.cutAt_of_not_mem sep hp]
    | cons q ps =>
      rw [List.intercalate_cons_cons, List.append_assoc, List.singleton_append,
        Text.cutAt_append_sep, Text.cutAt_of_not_mem sep hp,
        ih (List.cons_ne_nil q ps) fun p' hp' => h p' (List.mem_cons_of_mem p hp')]
      rfl

end CutAt

namespace Path

theorem segments_ne_nil (path : String) : segments path ≠ [] := by
  rw [segments, Ne, List.map_eq_nil_iff]
  exact Text.cutAt_ne_nil '/' path.toList

/-- The segments with slashes between them are the path. -/
theorem intercalate_segments (path : String) : "/".intercalate (segments path) = path := by
  rw [← String.toList_inj, String.toList_intercalate, segments, List.map_map]
  have hid : String.toList ∘ String.ofList = id := funext fun l => String.toList_ofList
  rw [hid, List.map_id]
  exact Text.intercalate_cutAt '/' path.toList

/-- Segments without slashes are found again. -/
theorem segments_intercalate {segs : List String} (hne : segs ≠ [])
    (h : ∀ s ∈ segs, '/' ∉ s.toList) : segments ("/".intercalate segs) = segs := by
  have hpieces : ∀ p ∈ segs.map String.toList, '/' ∉ p := by
    intro p hp
    obtain ⟨s, hs, rfl⟩ := List.mem_map.mp hp
    exact h s hs
  have hback : String.ofList ∘ String.toList = id := funext fun s => String.ofList_toList
  have hcut := Text.cutAt_intercalate '/' (by simpa using hne) hpieces
  rw [segments, String.toList_intercalate]
  exact (congrArg (List.map String.ofList) hcut).trans (by rw [List.map_map, hback, List.map_id])

theorem slash_not_mem_of_segments {path s : String} (hs : s ∈ segments path) : '/' ∉ s.toList := by
  obtain ⟨p, hp, rfl⟩ := List.mem_map.mp hs
  rw [String.toList_ofList]
  exact Text.not_mem_of_mem_cutAt '/' hp

theorem eq_empty_of_segments {path : String} (h : segments path = [""]) : path = "" := by
  rw [← intercalate_segments path, h, String.intercalate_singleton]

/-- A path that goes on without a slash goes on in its last segment. -/
theorem segments_append (path : String) {q : String} (hq : '/' ∉ q.toList) :
    ∃ outer s, segments path = outer ++ [s] ∧ segments (path ++ q) = outer ++ [s ++ q] := by
  obtain ⟨ps, p, hcut, hcut'⟩ := Text.cutAt_append '/' hq path.toList
  refine ⟨ps.map String.ofList, String.ofList p, ?_, ?_⟩
  · rw [segments, hcut, List.map_append, List.map_singleton]
  · rw [segments, String.toList_append, hcut', List.map_append, List.map_singleton,
      String.ofList_append, String.ofList_toList]

theorem dropSlashes_append (segs : List String) :
    ∃ slashes, segs = dropSlashes segs ++ slashes ∧ ∀ s ∈ slashes, s = "" := by
  refine ⟨segs.rtakeWhile (· == ""), List.rdropWhile_append_rtakeWhile.symm, fun s hs => ?_⟩
  simpa using List.mem_rtakeWhile_imp hs

theorem ne_empty_of_dropSlashes {segs outer : List String} {s : String}
    (h : dropSlashes segs = outer ++ [s]) : s ≠ "" := by
  have hlast : segs.rdropWhile (· == "") = outer ++ [s] := h
  simpa [hlast] using List.rdropWhile_last_not (· == "") segs (by simp [hlast])

/-! ### Extensions -/

theorem isPrefix_dropStays (segs : List String) : dropStays segs <+: segs :=
  List.rdropWhile_prefix _ segs

/-- Segments that end in a name are kept. -/
theorem dropStays_of_name {outer : List String} {s : String} (hs : s ≠ "")
    (hdots : isDots s = false) : dropStays (outer ++ [s]) = outer ++ [s] := by
  simp only [isDots, Bool.or_eq_false_iff, beq_eq_false_iff_ne] at hdots
  exact List.rdropWhile_concat_neg _ _ s (by simp [hs, hdots.1])

theorem ne_of_dropStays {segs outer : List String} {s : String}
    (h : dropStays segs = outer ++ [s]) : s ≠ "" ∧ s ≠ "." := by
  have hlast : segs.rdropWhile (fun s => s == "" || s == ".") = outer ++ [s] := h
  simpa [hlast] using List.rdropWhile_last_not (fun s => s == "" || s == ".") segs (by simp [hlast])

/-- A name with an extension is a name. -/
theorem isDots_append_extension {s : String} (hs : s ≠ "") (hdot : s ≠ ".") (ext : String) :
    s ++ "." ++ ext ≠ "" ∧ isDots (s ++ "." ++ ext) = false := by
  have htext : (s ++ "." ++ ext).toList = s.toList ++ '.' :: ext.toList := by simp
  have hne : s.toList ≠ [] := by simpa using hs
  have hone : s.toList ≠ ['.'] := fun h => hdot (String.toList_inj.mp h)
  simp only [isDots, Bool.or_eq_false_iff, beq_eq_false_iff_ne, Ne, ← String.toList_inj, htext]
  match s.toList, hne, hone with
  | [], hne, _ => exact absurd rfl hne
  | [c], _, hone =>
    have hc : c ≠ '.' := by simpa using hone
    simp [hc]
  | _ :: _ :: _, _, _ => simp

/-- **A path with an extension added**: it leads to another name in the directory of the path. -/
theorem segments_of_withExtension? {ext path file : String} (hext : '/' ∉ ext.toList)
    (h : withExtension? ext path = some file) :
    ∃ outer s, dropStays (segments path) = outer ++ [s] ∧ s ≠ "" ∧ isDots s = false ∧
      segments file = outer ++ [s ++ "." ++ ext] := by
  rw [withExtension?] at h
  rcases List.eq_nil_or_concat (dropStays (segments path)) with hnil | ⟨outer, s, hnamed⟩
  · simp [hnil] at h
  · rw [List.concat_eq_append] at hnamed
    obtain ⟨hempty, hdot⟩ := ne_of_dropStays hnamed
    simp only [hnamed, List.getLast?_append, List.getLast?_singleton, Option.some_or] at h
    by_cases hup : s = ".."
    · simp [hup] at h
    · rw [if_neg hup] at h
      obtain rfl := Option.some.inj h
      refine ⟨outer, s, hnamed, hempty, by simp [isDots, hdot, hup], ?_⟩
      -- the segments of the path up to the name, and then the extension in the last of them
      have hback : segments ("/".intercalate (outer ++ [s])) = outer ++ [s] := by
        refine segments_intercalate (by simp) fun s' hs' => ?_
        rw [← hnamed] at hs'
        exact slash_not_mem_of_segments ((isPrefix_dropStays _).subset hs')
      have hplain : '/' ∉ ("." ++ ext).toList := by simpa using hext
      obtain ⟨outer', s', hcut, hcut'⟩ := segments_append ("/".intercalate (outer ++ [s])) hplain
      obtain ⟨rfl, hlast⟩ := List.append_inj' (hback.symm.trans hcut) rfl
      obtain rfl := List.singleton_inj.mp hlast
      rw [String.append_assoc, hcut', String.append_assoc]

theorem hasExtension_of_withExtension? {ext path file : String} (hext : '/' ∉ ext.toList)
    (h : withExtension? ext path = some file) : hasExtension ext file = true := by
  obtain ⟨outer, s, -, hs, -, hsegs⟩ := segments_of_withExtension? hext h
  have hlast : lastSegment file = s ++ "." ++ ext := by
    rw [lastSegment, hsegs, List.getLast?_append]
    rfl
  have hlength : 0 < s.toList.length := by simpa [List.length_pos_iff] using hs
  have htext : (s ++ "." ++ ext).toList = s.toList ++ '.' :: ext.toList := by simp
  simp only [hasExtension, hlast, htext, Bool.and_eq_true, List.isSuffixOf_iff_suffix,
    decide_eq_true_eq, List.length_append]
  exact ⟨List.suffix_append _ _, by omega⟩

/-- The directory that a path and the path with an extension added have in common. -/
def around (path : String) : List String := (dropStays (segments path)).dropLast

theorem isPrefix_around (path : String) : around path <+: segments path := by
  have hlast : around path <+: dropStays (segments path) := List.dropLast_prefix _
  exact hlast.trans (isPrefix_dropStays _)

theorem segments_withExtension?_eq_around {ext path file : String} (hext : '/' ∉ ext.toList)
    (h : withExtension? ext path = some file) :
    ∃ s, s ≠ "" ∧ isDots s = false ∧ segments file = around path ++ [s] := by
  obtain ⟨outer, s, hnamed, hempty, hdots, hfile⟩ := segments_of_withExtension? hext h
  have hdot := (ne_of_dropStays hnamed).2
  refine ⟨s ++ "." ++ ext, ?_⟩
  rw [around, hnamed, List.dropLast_concat]
  exact ⟨(isDots_append_extension hempty hdot ext).1, (isDots_append_extension hempty hdot ext).2,
    hfile⟩

end Path

end FlatFile
