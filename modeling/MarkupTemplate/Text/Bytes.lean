/-!
Positions in a text count the bytes of its UTF-8 form. A position inside a character stands for
the start of that character, and one past the end for the end: `take n` and `drop n` cut there.
-/

namespace MarkupTemplate.Bytes

def length : List Char → Nat
  | [] => 0
  | c :: cs => c.utf8Size + length cs

-- The longest part at the front that fits into `n` bytes, and below it what is left.
def take : Nat → List Char → List Char
  | _, [] => []
  | n, c :: cs => if c.utf8Size ≤ n then c :: take (n - c.utf8Size) cs else []

def drop : Nat → List Char → List Char
  | _, [] => []
  | n, c :: cs => if c.utf8Size ≤ n then drop (n - c.utf8Size) cs else c :: cs

@[simp]
theorem length_nil : length [] = 0 :=
  rfl

@[simp]
theorem length_cons (c : Char) (cs : List Char) : length (c :: cs) = c.utf8Size + length cs :=
  rfl

@[simp]
theorem length_append (cs ds : List Char) : length (cs ++ ds) = length cs + length ds := by
  induction cs with
  | nil => simp
  | cons c cs ih => simp [ih, Nat.add_assoc]

theorem length_le_length (cs : List Char) : cs.length ≤ length cs := by
  induction cs with
  | nil => exact Nat.le_refl _
  | cons c cs ih =>
    have := c.utf8Size_pos
    rw [length_cons, List.length_cons]
    omega

theorem utf8ByteSize_ofList (cs : List Char) : (String.ofList cs).utf8ByteSize = length cs := by
  induction cs with
  | nil => simp
  | cons c cs ih => simp [String.ofList_cons, String.utf8ByteSize_append, ih]

theorem length_toList (s : String) : length s.toList = s.utf8ByteSize := by
  rw [← utf8ByteSize_ofList, String.ofList_toList]

@[simp]
theorem take_append_drop : (n : Nat) → (cs : List Char) → take n cs ++ drop n cs = cs
  | _, [] => rfl
  | n, c :: cs => by
    simp only [take, drop]
    split <;> simp [take_append_drop]

theorem length_take_le : (n : Nat) → (cs : List Char) → length (take n cs) ≤ n
  | _, [] => Nat.zero_le _
  | n, c :: cs => by
    simp only [take]
    split
    case isTrue => have := length_take_le (n - c.utf8Size) cs; simp; omega
    case isFalse => simp

@[simp]
theorem take_length_append (cs ds : List Char) : take (length cs) (cs ++ ds) = cs := by
  induction cs with
  | nil => cases ds <;> simp [take, Nat.not_le.mpr (Char.utf8Size_pos _)]
  | cons c cs ih => simp [take, ih]

@[simp]
theorem drop_length_append (cs ds : List Char) : drop (length cs) (cs ++ ds) = ds := by
  induction cs with
  | nil => cases ds <;> simp [drop, Nat.not_le.mpr (Char.utf8Size_pos _)]
  | cons c cs ih => simp [drop, ih]

theorem take_append_of_le {n : Nat} {cs : List Char} (h : length cs ≤ n) (ds : List Char) :
    take n (cs ++ ds) = cs ++ take (n - length cs) ds := by
  induction cs generalizing n with
  | nil => rfl
  | cons c cs ih =>
    rw [length_cons] at h
    rw [List.cons_append, take, if_pos (by omega), ih (by omega), length_cons, Nat.sub_add_eq,
      List.cons_append]

theorem take_length_take (n : Nat) (cs : List Char) : take (length (take n cs)) cs = take n cs := by
  have cut := take_length_append (take n cs) (drop n cs)
  rwa [take_append_drop] at cut

theorem drop_length_take (n : Nat) (cs : List Char) : drop (length (take n cs)) cs = drop n cs := by
  have cut := drop_length_append (take n cs) (drop n cs)
  rwa [take_append_drop] at cut

end MarkupTemplate.Bytes
