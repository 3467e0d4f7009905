import JsxProvenance.Json.Basic

/-!
Readers of a piece of a text, and of series of pieces between brackets. A reader
takes its piece off the front of a text and leaves the rest; that the rest is
shorter is part of being a reader, and is why reading a series comes to an end.
-/

namespace JsxProvenance

/-- Takes a value off the front of a text, which leaves the text shorter. -/
structure Reader (α : Type) where
  read : List Char → Except Fault (α × List Char)
  shorter : ∀ {s rest : List Char} {a : α}, read s = .ok (a, rest) → rest.length < s.length

/-- The characters that may stand between the parts of a JSON text. -/
def isBlank (c : Char) : Bool :=
  c = ' ' || c = '\n' || c = '\t' || c = '\r'

def skipBlanks (s : List Char) : List Char :=
  s.dropWhile isBlank

theorem skipBlanks_length_le (s : List Char) : (skipBlanks s).length ≤ s.length :=
  (List.dropWhile_sublist isBlank).length_le

/-- How a bracketed series ends, and what is said of one that does not go on as
it should. -/
structure Bracket where
  close : Char
  unclosed : Flaw
  unseparated : Flaw

namespace Bracket

def list : Bracket := ⟨']', .endInList, .expectedListSeparator⟩

def object : Bracket := ⟨'\x7d', .endInObject, .expectedObjectSeparator⟩

variable {α : Type}

/-- The rest of a series, up to the closing bracket: every further item follows a
comma. -/
@[semireducible] def readMore (bracket : Bracket) (item : Reader α) (s : List Char) :
    Except Fault (List α × List Char) :=
  match _hs : skipBlanks s with
  | [] => .error (.on bracket.unclosed [])
  | c :: rest =>
      if c = bracket.close then .ok ([], rest)
      else if c = ',' then
        if (skipBlanks rest).head? = some bracket.close then
          .error (.on .trailingComma (skipBlanks rest))
        else
          match _hitem : item.read (skipBlanks rest) with
          | .error fault => .error fault
          | .ok (a, rest') =>
              match readMore bracket item rest' with
              | .error fault => .error fault
              | .ok (more, rest'') => .ok (a :: more, rest'')
      else .error (.on bracket.unseparated (c :: rest))
termination_by s.length
decreasing_by
  have hread := item.shorter _hitem
  have hrest := skipBlanks_length_le rest
  have hs := skipBlanks_length_le s
  simp only [_hs, List.length_cons] at hs
  omega

/-- A series, the opening bracket already taken off. -/
def read (bracket : Bracket) (item : Reader α) (s : List Char) :
    Except Fault (List α × List Char) :=
  match skipBlanks s with
  | [] => .error (.on bracket.unclosed [])
  | c :: rest =>
      if c = bracket.close then .ok ([], rest)
      else
        match item.read (c :: rest) with
        | .error fault => .error fault
        | .ok (a, rest') =>
            match readMore bracket item rest' with
            | .error fault => .error fault
            | .ok (more, rest'') => .ok (a :: more, rest'')

theorem readMore_length {bracket : Bracket} {item : Reader α} {s rest : List Char}
    {items : List α} (h : readMore bracket item s = .ok (items, rest)) :
    rest.length < s.length := by
  fun_induction readMore bracket item s generalizing items with
  | case1 => cases h
  | case2 s rest' hs =>
      have hlength := skipBlanks_length_le s
      simp only [hs, List.length_cons] at hlength
      simp only [Except.ok.injEq, Prod.mk.injEq] at h
      rw [← h.2]
      omega
  | case3 => cases h
  | case4 => cases h
  | case5 => cases h
  | case6 =>
      rename_i s rest' _ _ _ hitem _ _ hmore hs _ ih
      simp only [Except.ok.injEq, Prod.mk.injEq] at h
      have hread := item.shorter hitem
      have htail := ih (h.2 ▸ hmore)
      have hrest := skipBlanks_length_le rest'
      have hlength := skipBlanks_length_le s
      simp only [hs, List.length_cons] at hlength
      omega
  | case7 => cases h

theorem read_length {bracket : Bracket} {item : Reader α} {s rest : List Char}
    {items : List α} (h : read bracket item s = .ok (items, rest)) :
    rest.length < s.length := by
  have hlength := skipBlanks_length_le s
  unfold read at h
  split at h
  · cases h
  · rename_i c rest' hs
    simp only [hs, List.length_cons] at hlength
    split at h
    · simp only [Except.ok.injEq, Prod.mk.injEq] at h
      rw [← h.2]
      omega
    · split at h
      · cases h
      · rename_i a afterItem hitem
        have hread := item.shorter hitem
        simp only [List.length_cons] at hread
        split at h
        · cases h
        · rename_i more afterMore hmore
          have htail := readMore_length hmore
          simp only [Except.ok.injEq, Prod.mk.injEq] at h
          rw [← h.2]
          omega

end Bracket

end JsxProvenance
