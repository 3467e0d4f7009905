import JsxProvenance.Json.Numeral
import JsxProvenance.Json.Quoted
import JsxProvenance.Json.Reader

/-!
JSON texts. A text is one value with blanks around it. Values are read by
recursion on the number of brackets that may still be opened inside them, so that
a text nested too deeply is a fault like any other.
-/

namespace JsxProvenance

namespace Json

/-- The remaining letters of a word whose first letter has been read. -/
def readWord : List Char → List Char → Except Fault (List Char)
  | [], s => .ok s
  | _ :: _, [] => .error (.on .endInValue [])
  | letter :: letters, c :: rest =>
      if c = letter then readWord letters rest else .error (.on .expectedWord (c :: rest))

theorem readWord_length {letters s rest : List Char} (h : readWord letters s = .ok rest) :
    rest.length ≤ s.length := by
  fun_induction readWord letters s with
  | case1 => simp_all
  | case2 => cases h
  | case3 letters c s ih =>
      have := ih h
      simp only [List.length_cons]
      omega
  | case4 => cases h

/-- A member of an object: a string for its key, a colon, and a value. -/
def readMember (value : Reader Json) : List Char → Except Fault ((String × Json) × List Char)
  | [] => .error (.on .endInValue [])
  | c :: s =>
      if c = '"' then
        match Quoted.readString s with
        | .error fault => .error fault
        | .ok (key, rest) =>
            match skipBlanks rest with
            | [] => .error (.on .endInObject [])
            | ':' :: rest' =>
                match value.read rest' with
                | .error fault => .error fault
                | .ok (v, rest'') => .ok ((key, v), rest'')
            | rest' => .error (.on .expectedColon rest')
      else .error (.on .keyNotString (c :: s))

theorem readMember_length {value : Reader Json} {s rest : List Char} {m : String × Json}
    (h : readMember value s = .ok (m, rest)) : rest.length < s.length := by
  unfold readMember at h
  split at h
  · cases h
  · split at h
    · split at h
      · cases h
      · rename_i key afterKey hkey
        have hstring := Quoted.readString_length hkey
        have hblanks := skipBlanks_length_le afterKey
        split at h
        · cases h
        · rename_i afterColon hcolon
          simp only [hcolon, List.length_cons] at hblanks
          split at h
          · cases h
          · rename_i v afterValue hvalue
            have := value.shorter hvalue
            simp only [Except.ok.injEq, Prod.mk.injEq] at h
            rw [← h.2]
            simp only [List.length_cons]
            omega
        · cases h
    · cases h

def memberReader (value : Reader Json) : Reader (String × Json) where
  read := readMember value
  shorter := readMember_length

/-- The value that a text begins with. Arrays and objects need a reader for what
is nested in them; without one they are too deep. -/
def readWith (nested : Option (Reader Json)) (s : List Char) : Except Fault (Json × List Char) :=
  match skipBlanks s with
  | [] => .error (.on .endInValue [])
  | c :: rest =>
      if c = 'n' then (readWord ['u', 'l', 'l'] rest).map (.null, ·)
      else if c = 't' then (readWord ['r', 'u', 'e'] rest).map (.bool true, ·)
      else if c = 'f' then (readWord ['a', 'l', 's', 'e'] rest).map (.bool false, ·)
      else if c = '-' then (Numeral.readNumber true rest).map (Prod.map .number id)
      else if c.isDigit then (Numeral.readNumber false (c :: rest)).map (Prod.map .number id)
      else if c = '"' then (Quoted.readString rest).map (Prod.map .string id)
      else if c = '[' then
        match nested with
        | none => .error (.on .tooDeep (c :: rest))
        | some value => (Bracket.list.read value rest).map (Prod.map .array id)
      else if c = '\x7b' then
        match nested with
        | none => .error (.on .tooDeep (c :: rest))
        | some value => (Bracket.object.read (memberReader value) rest).map (Prod.map .object id)
      else .error (.on .expectedValue (c :: rest))

/-- What a reader leaves is not changed by a change to what it gives. -/
theorem exists_of_map {α β : Type} {result : Except Fault (α × List Char)} {f : α → β} {b : β}
    {rest : List Char} (h : result.map (Prod.map f id) = .ok (b, rest)) :
    ∃ a, result = .ok (a, rest) ∧ f a = b := by
  cases result with
  | error fault => cases h
  | ok pair =>
      simp only [Except.map, Except.ok.injEq, Prod.map, id, Prod.mk.injEq] at h
      exact ⟨pair.1, by rw [← h.2], h.1⟩

theorem rest_of_word {result : Except Fault (List Char)} {v w : Json} {rest : List Char}
    (h : result.map (v, ·) = .ok (w, rest)) : result = .ok rest ∧ v = w := by
  cases result with
  | error fault => cases h
  | ok rest' =>
      simp only [Except.map, Except.ok.injEq, Prod.mk.injEq] at h
      exact ⟨by rw [h.2], h.1⟩

theorem readWith_length {nested : Option (Reader Json)} {s rest : List Char} {v : Json}
    (h : readWith nested s = .ok (v, rest)) : rest.length < s.length := by
  have hlength := skipBlanks_length_le s
  unfold readWith at h
  split at h
  · cases h
  · rename_i c afterFirst hs
    simp only [hs, List.length_cons] at hlength
    split at h
    · have := readWord_length (rest_of_word h).1
      omega
    split at h
    · have := readWord_length (rest_of_word h).1
      omega
    split at h
    · have := readWord_length (rest_of_word h).1
      omega
    split at h
    · obtain ⟨number, hnumber, _⟩ := exists_of_map h
      have := Numeral.readNumber_length hnumber
      omega
    split at h
    · obtain ⟨number, hnumber, _⟩ := exists_of_map h
      have := Numeral.readNumber_length hnumber
      simp only [List.length_cons] at this
      omega
    split at h
    · obtain ⟨value, hvalue, _⟩ := exists_of_map h
      have := Quoted.readString_length hvalue
      omega
    split at h
    · split at h
      · cases h
      · obtain ⟨items, hitems, _⟩ := exists_of_map h
        have := Bracket.read_length hitems
        omega
    split at h
    · split at h
      · cases h
      · obtain ⟨members, hmembers, _⟩ := exists_of_map h
        have := Bracket.read_length hmembers
        omega
    · cases h

/-- Reads values with at most the given number of brackets open at once. -/
def reader : Nat → Reader Json
  | 0 => ⟨readWith none, readWith_length⟩
  | depth + 1 => ⟨readWith (some (reader depth)), readWith_length⟩

/-- How deep brackets may be nested in a text. -/
def deepest : Nat := 127

/-- The value of a text with at most `depth` brackets open at once. -/
def parseWithin (depth : Nat) (text : List Char) : Except Fault Json :=
  match (reader depth).read text with
  | .error fault => .error fault
  | .ok (value, rest) =>
      match skipBlanks rest with
      | [] => .ok value
      | rest' => .error (.on .trailingCharacters rest')

/-- The value of a text. -/
def parse (text : List Char) : Except Fault Json :=
  parseWithin deepest text

set_option maxRecDepth 2000 in
example : parse ['[', '1', ',', ' ', '\x7b', '\x7d', ']'] =
    .ok (.array [.number (.int 1), .object []]) := rfl

example : parse ['[', '1', ' ', '2', ']'] = .error ⟨.expectedListSeparator, 1⟩ := rfl

end Json

end JsxProvenance
