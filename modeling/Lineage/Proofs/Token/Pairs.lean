import Lineage.Token.Pairs

/-!
# Reading what was written

A key without an equals sign is read back up to the sign behind it, and a value is read back up to the quote behind it, whatever the
value holds and whatever follows. So a run of written pairs is read as the pairs it was written from, and its table has for each key
the value that was written last.
-/

namespace Lineage.Token.Pairs

/-- The text of pairs, one after the other. -/
def run (ps : List (String × String)) : List Char := ps.flatMap fun p => pair p.1.toList p.2.toList

variable {key : String} {ps : List (String × String)}

/-- A key is read up to the equals sign behind it. -/
theorem readKey_append {key : List Char} (h : '=' ∉ key) (rest : List Char) :
    readKey (key ++ '=' :: rest) = some (key, rest) := by
  induction key with
  | nil => rfl
  | cons c key ih =>
    rw [List.mem_cons, not_or] at h
    rw [List.cons_append, readKey, ih h.2, Option.map_some]
    exact Ne.symm h.1

/-- An escaped value is read up to the quote behind it: none of its own quotes and backslashes is taken for the end. -/
theorem readValue_escape (value rest : List Char) : readValue (escape value ++ '\'' :: rest) = .ok (value, rest) := by
  induction value with
  | nil => rfl
  | cons c value ih =>
    rw [escape]
    split
    · rw [List.cons_append, List.cons_append, readValue, ih]
      rfl
    · next hc =>
      obtain ⟨hslash, hquote⟩ := not_or.1 hc
      rw [List.cons_append, readValue, ih]
      · rfl
      · exact hquote
      · exact fun h => absurd h hslash
      · exact fun _ _ h => absurd h hslash

/-- After a key and an opening quote a value is read, and what follows the value is read on its own. -/
theorem read_quoted {key : List Char} (h : '=' ∉ key) (body : List Char) :
    read (key ++ '=' :: '\'' :: body) =
      match readValue body with
      | .error .inside => .error (.unterminated (String.ofList key))
      | .error .afterBackslash => .error (.danglingEscape (String.ofList key))
      | .ok (value, rest) => (read rest).map ((String.ofList key, String.ofList value) :: ·) := by
  have hkey := readKey_append h ('\'' :: body)
  rw [read, if_neg (by simp)]
  split
  · next hk =>
    rw [hkey] at hk
    cases hk
  · next k b hk =>
    rw [hkey] at hk
    obtain ⟨rfl, rfl⟩ : key = k ∧ body = b := by simpa using hk
    split
    · next hv => rw [hv]
    · next hv => rw [hv]
    · next hv => rw [hv]
  · next hne hk =>
    rw [hkey] at hk
    cases hk
    exact absurd rfl (hne _)

/-- A written pair is read as that pair, and what follows is read on its own. -/
theorem read_pair (h : '=' ∉ key.toList) (value : String) (rest : List Char) :
    read (pair key.toList value.toList ++ rest) = (read rest).map ((key, value) :: ·) := by
  have hpair : pair key.toList value.toList ++ rest =
      key.toList ++ '=' :: '\'' :: (escape value.toList ++ '\'' :: rest) := by
    simp only [pair, List.append_assoc, List.cons_append, List.nil_append]
  rw [hpair, read_quoted h, readValue_escape]
  simp only [String.ofList_toList]

/-- A run of written pairs is read as those pairs. -/
theorem read_run (h : ∀ p ∈ ps, '=' ∉ p.1.toList) : read (run ps) = .ok ps := by
  induction ps with
  | nil => rw [run, List.flatMap_nil, read, if_pos rfl]
  | cons p ps ih =>
    have hps := ih fun q hq => h q (List.mem_cons_of_mem p hq)
    rw [run, List.flatMap_cons, read_pair (h p List.mem_cons_self), ← run, hps]
    rfl

/-- Pairs that are set one after the other hide what a table had for their keys, and of two with one key the later hides the
earlier. -/
theorem find?_foldl_set (ps : List (String × String)) (t : Table String String) (key : String) :
    (ps.foldl (fun t p => t.set p.1 p.2) t).find? key =
      ((ps.reverse.find? (·.1 = key)).map Prod.snd).or (t.find? key) := by
  induction ps generalizing t with
  | nil => rfl
  | cons p ps ih =>
    rw [List.foldl_cons, ih, Table.find?_set, List.reverse_cons, List.find?_append, Option.map_or, Option.or_assoc]
    by_cases hp : p.1 = key
    · simp [hp]
    · simp [hp, Ne.symm hp]

/-- In the table of a run of pairs each key has the value of its last pair. -/
theorem find?_table (ps : List (String × String)) (key : String) :
    (table ps).find? key = (ps.reverse.find? (·.1 = key)).map Prod.snd := by
  rw [table, find?_foldl_set, Table.find?_empty, Option.or_none]

/-- The table of a text that is a run of pairs. -/
theorem parse_of_run {text : String} (ht : text.toList = run ps) (h : ∀ p ∈ ps, '=' ∉ p.1.toList) :
    parse text = .ok (table ps) := by
  rw [parse, ht, read_run h]
  rfl

/-- Writing one more pair at the end of a run gives the run with that pair. -/
theorem toList_write {text : String} (ht : text.toList = run ps) (key value : String) :
    (write text key value).toList = run (ps ++ [(key, value)]) := by
  rw [write, String.toList_append, String.toList_ofList, ht, run, run, List.flatMap_append, List.flatMap_singleton]

end Lineage.Token.Pairs
