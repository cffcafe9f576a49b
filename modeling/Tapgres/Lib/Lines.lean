import Mathlib.Data.List.Basic
import Mathlib.Tactic.Common

/-!
# The lines of a text

A text is a list of characters, or of bytes; `newline` and `cr` are the two of its units that a line ending
is made of.  `lines` cuts it behind each newline and takes the line ending off, a newline with the carriage
return in front of it if there is one; what stands behind the last newline is a line if it is not empty.

* `lines_ended` — a text of ended lines has these lines, up to the carriage returns at their ends;
* `lines_unended` — what stands behind the last of them is one line more;
* `lines_flatMap` — a text written in other units, such as bytes, has the same lines, so written;
* `flatten_lines_iff` — put together the lines are the text exactly if there is no newline in it.

Nothing here names a concrete text.
-/

namespace Tapgres.Lib.Lines

variable {α β : Type} [DecidableEq α] [DecidableEq β]

/-- In front of the first piece. -/
def consFirst (front : List α) : List (List α) → List (List α)
  | [] => [front]
  | piece :: pieces => (front ++ piece) :: pieces

/-- Cut behind each newline. -/
def cuts (newline : α) : List α → List (List α)
  | [] => []
  | c :: rest => if c = newline then [c] :: cuts newline rest else consFirst [c] (cuts newline rest)

/-- A line without the carriage return at its end. -/
def dropCr (cr : α) (line : List α) : List α :=
  if line.getLast? = some cr then line.dropLast else line

/-- A piece without its line ending. -/
def chomp (newline cr : α) (piece : List α) : List α :=
  if piece.getLast? = some newline then dropCr cr piece.dropLast else piece

def lines (newline cr : α) (text : List α) : List (List α) := (cuts newline text).map (chomp newline cr)

/-- A line with its newline. -/
def ended (newline : α) (line : List α) : List α := line ++ [newline]

variable {newline cr : α}

@[simp] theorem chomp_ended (line : List α) : chomp newline cr (ended newline line) = dropCr cr line := by
  simp [chomp, ended]

theorem dropCr_of_not_mem {line : List α} (h : cr ∉ line) : dropCr cr line = line := by
  rw [dropCr, if_neg]
  exact fun hlast => h (List.mem_of_getLast? hlast)

omit [DecidableEq α] in
theorem consFirst_append (front more : List α) (pieces : List (List α)) :
    consFirst (front ++ more) pieces = consFirst front (consFirst more pieces) := by
  cases pieces with
  | nil => rfl
  | cons piece pieces =>
    show (front ++ more ++ piece) :: pieces = (front ++ (more ++ piece)) :: pieces
    rw [List.append_assoc]

/-- Where there is no newline the text is not cut. -/
theorem cuts_append {front : List α} (h : newline ∉ front) (hne : front ≠ []) (rest : List α) :
    cuts newline (front ++ rest) = consFirst front (cuts newline rest) := by
  induction front with
  | nil => exact absurd rfl hne
  | cons c front ih =>
    rw [List.cons_append, cuts, if_neg (Ne.symm (List.ne_of_not_mem_cons h))]
    cases front with
    | nil => rfl
    | cons d front =>
      rw [ih (List.not_mem_of_not_mem_cons h) (List.cons_ne_nil d front), ← consFirst_append]
      rfl

/-- A line that ends in front of the rest of the text is cut off whole. -/
theorem cuts_ended {line : List α} (h : newline ∉ line) (rest : List α) :
    cuts newline (ended newline line ++ rest) = ended newline line :: cuts newline rest := by
  have hfirst : cuts newline (newline :: rest) = [newline] :: cuts newline rest := by rw [cuts, if_pos rfl]
  rw [ended, List.append_assoc, List.singleton_append]
  rcases eq_or_ne line [] with rfl | hne
  · exact hfirst
  · rw [cuts_append h hne, hfirst]
    rfl

/-- **A text of ended lines has these lines.** -/
theorem lines_ended {ls : List (List α)} (h : ∀ line ∈ ls, newline ∉ line) :
    lines newline cr (ls.flatMap (ended newline)) = ls.map (dropCr cr) := by
  induction ls with
  | nil => rfl
  | cons line ls ih =>
    rw [List.flatMap_cons, lines, cuts_ended (h line (by simp)), List.map_cons, chomp_ended]
    exact congrArg (dropCr cr line :: ·) (ih fun l hl => h l (by simp [hl]))

/-- A piece without a newline is not cut. -/
theorem cuts_unended {piece : List α} (h : newline ∉ piece) (hne : piece ≠ []) :
    cuts newline piece = [piece] := by
  have hall := cuts_append h hne []
  rw [List.append_nil] at hall
  exact hall

/-- **A last line without its newline.** -/
theorem lines_unended {ls : List (List α)} (h : ∀ line ∈ ls, newline ∉ line) {piece : List α}
    (hpiece : newline ∉ piece) (hne : piece ≠ []) :
    lines newline cr (ls.flatMap (ended newline) ++ piece) = ls.map (dropCr cr) ++ [piece] := by
  induction ls with
  | nil =>
    have hlast : piece.getLast? ≠ some newline := fun hlast => hpiece (List.mem_of_getLast? hlast)
    rw [List.flatMap_nil, List.nil_append, lines, cuts_unended hpiece hne, List.map_singleton, chomp,
      if_neg hlast]
    rfl
  | cons line ls ih =>
    rw [List.flatMap_cons, List.append_assoc, lines, cuts_ended (h line (by simp)), List.map_cons,
      chomp_ended]
    exact congrArg (dropCr cr line :: ·) (ih fun l hl => h l (by simp [hl]))

/-! ### What the lines keep -/

theorem mem_of_mem_dropCr {c : α} {line : List α} (h : c ∈ dropCr cr line) : c ∈ line := by
  rw [dropCr] at h
  split at h
  · exact (List.dropLast_sublist line).subset h
  · exact h

/-- A piece has a newline at its end, if anywhere. -/
theorem newline_notMem_dropLast {text piece : List α} (h : piece ∈ cuts newline text) :
    newline ∉ piece.dropLast := by
  induction text generalizing piece with
  | nil => cases h
  | cons c rest ih =>
    rw [cuts] at h
    split at h
    · rcases List.mem_cons.mp h with rfl | h
      · simp
      · exact ih h
    · rename_i hc
      cases hrest : cuts newline rest with
      | nil =>
        rw [hrest] at h
        obtain rfl := List.mem_singleton.mp h
        simp
      | cons first pieces =>
        rw [hrest] at h ih
        rcases List.mem_cons.mp h with rfl | h
        · have hfirst := ih (List.mem_cons_self ..)
          cases first with
          | nil => simp
          | cons d first =>
            show newline ∉ (c :: d :: first).dropLast
            rw [List.dropLast_cons_cons, List.mem_cons, not_or]
            exact ⟨Ne.symm hc, hfirst⟩
        · exact ih (List.mem_cons_of_mem first h)

theorem newline_notMem_of_mem_lines {text line : List α} (h : line ∈ lines newline cr text) :
    newline ∉ line := by
  obtain ⟨piece, hpiece, rfl⟩ := List.mem_map.mp h
  have hinner := newline_notMem_dropLast hpiece
  rw [chomp]
  split
  · exact fun hmem => hinner (mem_of_mem_dropCr hmem)
  · rename_i hlast
    rcases List.eq_nil_or_concat piece with rfl | ⟨front, c, rfl⟩
    · simp
    · rw [List.concat_eq_append, List.dropLast_concat] at hinner
      rw [List.concat_eq_append, List.getLast?_concat] at hlast
      rw [List.concat_eq_append, List.mem_append, List.mem_singleton, not_or]
      exact ⟨hinner, fun hc => hlast (congrArg some hc.symm)⟩

/-- **The lines of a text are the text** exactly if it has no newline. -/
theorem flatten_lines_iff (text : List α) : (lines newline cr text).flatten = text ↔ newline ∉ text := by
  constructor
  · intro h hmem
    rw [← h] at hmem
    obtain ⟨line, hline, hin⟩ := List.mem_flatten.mp hmem
    exact newline_notMem_of_mem_lines hline hin
  · intro h
    rcases eq_or_ne text [] with rfl | hne
    · rfl
    · have hlast : text.getLast? ≠ some newline := fun hlast => h (List.mem_of_getLast? hlast)
      rw [lines, cuts_unended h hne, List.map_singleton, chomp, if_neg hlast, List.flatten_singleton]

/-! ### Other units -/

/-- The unit `u` is written as `v`, and `v` occurs nowhere else. -/
def WrittenAs (write : α → List β) (u : α) (v : β) : Prop := write u = [v] ∧ ∀ c, v ∈ write c → c = u

variable {write : α → List β} {u : α} {v : β}

omit [DecidableEq α] [DecidableEq β] in
theorem WrittenAs.getLast? (h : WrittenAs write u v) (hne : ∀ c, write c ≠ []) (line : List α) :
    (line.flatMap write).getLast? = some v ↔ line.getLast? = some u := by
  rcases List.eq_nil_or_concat line with rfl | ⟨front, c, rfl⟩
  · simp
  · rw [List.concat_eq_append, List.flatMap_append, List.flatMap_singleton, List.getLast?_concat,
      List.getLast?_append_of_ne_nil _ (hne c), Option.some_inj]
    constructor
    · exact fun hlast => h.2 c (List.mem_of_getLast? hlast)
    · rintro rfl
      rw [h.1]
      rfl

/-- Taking the unit off the end, or what it is written as. -/
theorem WrittenAs.strip (h : WrittenAs write u v) (hne : ∀ c, write c ≠ []) (line : List α) :
    (if (line.flatMap write).getLast? = some v then (line.flatMap write).dropLast else line.flatMap write)
      = (if line.getLast? = some u then line.dropLast else line).flatMap write := by
  by_cases hlast : line.getLast? = some u
  · rw [if_pos hlast, if_pos ((h.getLast? hne line).mpr hlast)]
    obtain ⟨front, rfl⟩ := List.getLast?_eq_some_iff.mp hlast
    rw [List.flatMap_append, List.flatMap_singleton, h.1, List.dropLast_concat, List.dropLast_concat]
  · rw [if_neg hlast, if_neg (mt (h.getLast? hne line).mp hlast)]

theorem WrittenAs.cuts (h : WrittenAs write u v) (hne : ∀ c, write c ≠ []) (text : List α) :
    cuts v (text.flatMap write) = (cuts u text).map (·.flatMap write) := by
  induction text with
  | nil => rfl
  | cons c rest ih =>
    rw [List.flatMap_cons, Lines.cuts]
    by_cases hc : c = u
    · rw [if_pos hc, hc, h.1, List.singleton_append, Lines.cuts, if_pos rfl, ih, List.map_cons,
        List.flatMap_singleton, h.1]
    · rw [if_neg hc, cuts_append (fun hmem => hc (h.2 c hmem)) (hne c), ih]
      cases Lines.cuts u rest with
      | nil =>
        show [write c] = [[c].flatMap write]
        rw [List.flatMap_singleton]
      | cons piece pieces =>
        show (write c ++ piece.flatMap write) :: _ = (c :: piece).flatMap write :: _
        rw [List.flatMap_cons]

/-- **The lines of a text in other units.** -/
theorem lines_flatMap {newline' cr' : β} (hnewline : WrittenAs write newline newline')
    (hcr : WrittenAs write cr cr') (hne : ∀ c, write c ≠ []) (text : List α) :
    lines newline' cr' (text.flatMap write) = (lines newline cr text).map (·.flatMap write) := by
  rw [lines, lines, hnewline.cuts hne, List.map_map, List.map_map]
  refine List.map_congr_left fun piece _ => ?_
  show chomp newline' cr' (piece.flatMap write) = (chomp newline cr piece).flatMap write
  rw [chomp, chomp]
  by_cases hlast : piece.getLast? = some newline
  · have hstrip := hnewline.strip hne piece
    rw [if_pos hlast, if_pos ((hnewline.getLast? hne piece).mpr hlast)] at hstrip ⊢
    rw [hstrip]
    exact hcr.strip hne piece.dropLast
  · rw [if_neg hlast, if_neg (mt (hnewline.getLast? hne piece).mp hlast)]

end Tapgres.Lib.Lines
