import Lineage.Table

/-!
# Quoted pairs

Tokens are written as a run of pairs `key='value'`, one after the other without a separator. A backslash stands before every quote
and every backslash of a value, so that a run of pairs can itself be the value of a pair. Reading takes any character after a
backslash as it is, and of several pairs with one key it keeps the value of the last.
-/

namespace Lineage.Token

/-- What is wrong with a text that should be a token. -/
inductive Malformed where
  /-- the text ends before the equals sign that ends a key -/
  | noValue (key : String)
  /-- something other than a quote follows the equals sign -/
  | notQuoted (key : String)
  /-- the text ends after a backslash -/
  | danglingEscape (key : String)
  /-- the text ends inside a value -/
  | unterminated (key : String)
  /-- a pair that the token needs is not there -/
  | missingKey (key : String)
  /-- there is no pair that names the kind -/
  | notTagged
  /-- the kind is named, but there is nothing of that kind -/
  | noPayload
  /-- the codec of the kind does not take the identity -/
  | rejected (reason : String)
  deriving DecidableEq, Repr

/-- The wording of what is wrong. -/
def Malformed.reason : Malformed → String
  | .noValue key => "key '" ++ key ++ "' has no value"
  | .notQuoted key => "value of '" ++ key ++ "' is not quoted"
  | .danglingEscape key => "dangling escape in '" ++ key ++ "'"
  | .unterminated key => "unterminated value for '" ++ key ++ "'"
  | .missingKey key => "missing key " ++ key
  | .notTagged => "serialized text is not a tagged entity token"
  | .noPayload => "tagged entity token has no payload"
  | .rejected reason => reason

namespace Pairs

/-- A value with a backslash before each of its quotes and backslashes. -/
def escape : List Char → List Char
  | [] => []
  | c :: cs => if c = '\\' ∨ c = '\'' then '\\' :: c :: escape cs else c :: escape cs

/-- One pair, written. -/
def pair (key value : List Char) : List Char := key ++ '=' :: '\'' :: escape value ++ ['\'']

/-- A text with one more pair at its end. -/
def write (text key value : String) : String := text ++ String.ofList (pair key.toList value.toList)

/-- The characters before the first equals sign, and those after it. -/
def readKey : List Char → Option (List Char × List Char)
  | [] => none
  | '=' :: cs => some ([], cs)
  | c :: cs => (readKey cs).map fun r => (c :: r.1, r.2)

/-- How a value can fail to end: inside, or right after a backslash. -/
inductive Unfinished where
  | inside | afterBackslash
  deriving DecidableEq, Repr

/-- The value up to the quote that closes it, and the characters after that quote. -/
def readValue : List Char → Except Unfinished (List Char × List Char)
  | [] => .error .inside
  | '\'' :: cs => .ok ([], cs)
  | ['\\'] => .error .afterBackslash
  | '\\' :: c :: cs => (readValue cs).map fun r => (c :: r.1, r.2)
  | c :: cs => (readValue cs).map fun r => (c :: r.1, r.2)

/-- What follows a key is shorter than what the key was read from. -/
theorem length_of_readKey {cs key rest : List Char} (h : readKey cs = some (key, rest)) : rest.length < cs.length := by
  fun_induction readKey cs generalizing key rest with
  | case1 => simp at h
  | case2 cs => simp only [Option.some.injEq, Prod.mk.injEq] at h; simp [← h.2]
  | case3 c cs _ ih =>
    obtain ⟨r, hr, he⟩ := Option.map_eq_some_iff.1 h
    have := @ih r.1 r.2 hr
    cases he
    simp only [List.length_cons]
    omega

/-- What follows a value is shorter than what the value was read from. -/
theorem length_of_readValue {cs value rest : List Char} (h : readValue cs = .ok (value, rest)) :
    rest.length < cs.length := by
  fun_induction readValue cs generalizing value rest with
  | case1 => simp at h
  | case2 cs => simp only [Except.ok.injEq, Prod.mk.injEq] at h; simp [← h.2]
  | case3 => simp at h
  | case4 c cs ih =>
    cases hr : readValue cs with
    | error e => simp [hr, Except.map] at h
    | ok r =>
      simp only [hr, Except.map, Except.ok.injEq, Prod.mk.injEq] at h
      have := @ih r.1 r.2 hr
      simp only [← h.2, List.length_cons]
      omega
  | case5 c cs _ _ _ ih =>
    cases hr : readValue cs with
    | error e => simp [hr, Except.map] at h
    | ok r =>
      simp only [hr, Except.map, Except.ok.injEq, Prod.mk.injEq] at h
      have := @ih r.1 r.2 hr
      simp only [← h.2, List.length_cons]
      omega

/-- The pairs of a text, in order. -/
def read (cs : List Char) : Except Malformed (List (String × String)) :=
  if cs = [] then .ok []
  else
    match _hk : readKey cs with
    | none => .error (.noValue (String.ofList cs))
    | some (key, '\'' :: body) =>
      match _hv : readValue body with
      | .error .inside => .error (.unterminated (String.ofList key))
      | .error .afterBackslash => .error (.danglingEscape (String.ofList key))
      | .ok (value, rest) => (read rest).map ((String.ofList key, String.ofList value) :: ·)
    | some (key, _) => .error (.notQuoted (String.ofList key))
termination_by cs.length
decreasing_by
  have h1 := length_of_readKey _hk
  have h2 := length_of_readValue _hv
  simp only [List.length_cons] at h1
  omega

/-- The table that a run of pairs describes: of several pairs with one key the last counts. -/
def table (ps : List (String × String)) : Table String String := ps.foldl (fun t p => t.set p.1 p.2) Table.empty

/-- The table that a text describes. -/
def parse (text : String) : Except Malformed (Table String String) := (read text.toList).map table

end Pairs
end Lineage.Token
