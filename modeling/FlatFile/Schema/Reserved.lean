/-!
# Reserved words

The words a column may not be named after, as a strictly increasing list, so that two sets with the
same words are the same set.  The order is by code point.
-/

namespace FlatFile.Schema

/-- Inserts a word into an increasing list, unless it is there. -/
def insertWord (w : String) : List String → List String
  | [] => [w]
  | v :: vs => if w < v then w :: v :: vs else if v < w then v :: insertWord w vs else v :: vs

theorem mem_insertWord {w x : String} {vs : List String} :
    x ∈ insertWord w vs ↔ x = w ∨ x ∈ vs := by
  induction vs with
  | nil => simp [insertWord]
  | cons v vs ih =>
    simp only [insertWord]
    split
    · simp
    · split
      · simp only [List.mem_cons, ih]
        constructor
        · rintro (h | h | h) <;> simp [h]
        · rintro (h | h | h) <;> simp [h]
      · have : w = v := String.le_antisymm (String.not_lt.1 ‹_›) (String.not_lt.1 ‹_›)
        simp [this]

theorem pairwise_insertWord {w : String} {vs : List String} (h : vs.Pairwise (· < ·)) :
    (insertWord w vs).Pairwise (· < ·) := by
  induction vs with
  | nil => simp [insertWord]
  | cons v vs ih =>
    obtain ⟨hv, hvs⟩ := List.pairwise_cons.1 h
    simp only [insertWord]
    split
    · refine List.pairwise_cons.2 ⟨fun x hx => ?_, h⟩
      rcases List.mem_cons.1 hx with rfl | hx
      · assumption
      · exact String.lt_trans ‹_› (hv x hx)
    · split
      · refine List.pairwise_cons.2 ⟨fun x hx => ?_, ih hvs⟩
        rcases mem_insertWord.1 hx with rfl | hx
        · assumption
        · exact hv x hx
      · exact h

/-- A set of words a column may not be named after. -/
structure ReservedWords where
  /-- The words in increasing order. -/
  words : List String
  /-- No word stands twice. -/
  increasing : words.Pairwise (· < ·)

namespace ReservedWords

/-- No words. -/
def empty : ReservedWords := ⟨[], List.Pairwise.nil⟩

/-- Adds one word. -/
def insert (r : ReservedWords) (w : String) : ReservedWords :=
  ⟨insertWord w r.words, pairwise_insertWord r.increasing⟩

/-- Adds several words. -/
def extend (r : ReservedWords) (ws : List String) : ReservedWords := ws.foldl insert r

/-- The set of the words of a list. -/
def ofList (ws : List String) : ReservedWords := empty.extend ws

/-- Whether a word is in the set. -/
def contains (r : ReservedWords) (w : String) : Bool := r.words.contains w

/-- The number of words. -/
def size (r : ReservedWords) : Nat := r.words.length

@[ext] theorem ext {r s : ReservedWords} (h : r.words = s.words) : r = s := by
  cases r; cases s; simp_all

theorem contains_insert {r : ReservedWords} {v w : String} :
    (r.insert v).contains w = (w == v || r.contains w) := by
  rw [Bool.eq_iff_iff]
  simp [contains, insert, mem_insertWord]

theorem contains_extend {r : ReservedWords} {vs : List String} {w : String} :
    (r.extend vs).contains w = (vs.contains w || r.contains w) := by
  induction vs generalizing r with
  | nil => simp [extend]
  | cons v vs ih =>
    have step : (r.extend (v :: vs)) = (r.insert v).extend vs := rfl
    rw [step, ih, contains_insert, Bool.eq_iff_iff]
    simp only [Bool.or_eq_true, List.contains_iff_mem, List.mem_cons, beq_iff_eq]
    constructor
    · rintro (h | h | h) <;> simp [h]
    · rintro ((h | h) | h) <;> simp [h]

end ReservedWords

end FlatFile.Schema
