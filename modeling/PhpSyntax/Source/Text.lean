namespace PhpSyntax

def byteLength : List Char → Nat
  | [] => 0
  | c :: cs => c.utf8Size + byteLength cs

/-- The characters that lie within the first `n` bytes. -/
def takeBytes : Nat → List Char → List Char
  | _, [] => []
  | n, c :: cs => if c.utf8Size ≤ n then c :: takeBytes (n - c.utf8Size) cs else []

/-- A text with the characters that lie within the first `n` bytes behind it. -/
def pushBytes (front : String) : Nat → List Char → String
  | _, [] => front
  | n, c :: cs =>
    if c.utf8Size ≤ n then pushBytes (front.push c) (n - c.utf8Size) cs else front

/-- How many characters lie within the first `n` bytes, added to `count`. -/
def countWithin (count : Nat) : Nat → List Char → Nat
  | _, [] => count
  | n, c :: cs => if c.utf8Size ≤ n then countWithin (count + 1) (n - c.utf8Size) cs else count

/-- What follows the first `n` bytes, if they end between two characters. -/
def dropBytes? : Nat → List Char → Option (List Char)
  | 0, cs => some cs
  | _ + 1, [] => none
  | n + 1, c :: cs => if c.utf8Size ≤ n + 1 then dropBytes? (n + 1 - c.utf8Size) cs else none

/-- What follows a text at the start of another. -/
def afterText? : List Char → List Char → Option (List Char)
  | [], cs => some cs
  | w :: ws, c :: cs => if w = c then afterText? ws cs else none
  | _ :: _, [] => none

/-- A text with the rest of it at every offset at hand. -/
structure Text where
  chars : List Char
  rests : Array (Option (List Char))

namespace Text

def pad : Nat → Array (Option (List Char)) → Array (Option (List Char))
  | 0, acc => acc
  | n + 1, acc => pad n (acc.push none)

def collect : List Char → Array (Option (List Char)) → Array (Option (List Char))
  | [], acc => acc.push (some [])
  | c :: cs, acc => collect cs (pad (c.utf8Size - 1) (acc.push (some (c :: cs))))

def ofList (cs : List Char) : Text :=
  ⟨cs, collect cs #[]⟩

def ofString (s : String) : Text :=
  ofList s.toList

def size (t : Text) : Nat :=
  t.rests.size - 1

/-- What follows an offset; nothing if it is inside a character or past the end. -/
def after? (t : Text) (offset : Nat) : Option (List Char) :=
  t.rests.getD offset none

/-- The characters between two offsets, if both lie between characters. -/
def slice? (t : Text) (start stop : Nat) : Option (List Char) :=
  match t.after? start, t.after? stop with
  | some cs, some _ => if start ≤ stop then some (takeBytes (stop - start) cs) else none
  | _, _ => none

def slice (t : Text) (start stop : Nat) : List Char :=
  (t.slice? start stop).getD []

/-- The text between two offsets; it is empty unless both lie between characters. -/
def cut (t : Text) (start stop : Nat) : String :=
  match t.after? start, t.after? stop with
  | some cs, some _ => if start ≤ stop then pushBytes "" (stop - start) cs else ""
  | _, _ => ""

/-- The number of characters between two offsets, if both lie between characters. -/
def distance? (t : Text) (start stop : Nat) : Option Nat :=
  match t.after? start, t.after? stop with
  | some cs, some _ => if start ≤ stop then some (countWithin 0 (stop - start) cs) else none
  | _, _ => none

def charAt? (t : Text) (offset : Nat) : Option Char :=
  (t.after? offset).bind List.head?

end Text

theorem toList_pushBytes (front : String) (n : Nat) (cs : List Char) :
    (pushBytes front n cs).toList = front.toList ++ takeBytes n cs := by
  induction cs generalizing front n with
  | nil => simp [pushBytes, takeBytes]
  | cons c cs ih =>
    rw [pushBytes, takeBytes]
    split
    · simp [ih]
    · simp

theorem countWithin_eq (count n : Nat) (cs : List Char) :
    countWithin count n cs = count + (takeBytes n cs).length := by
  induction cs generalizing count n with
  | nil => simp [countWithin, takeBytes]
  | cons c cs ih =>
    rw [countWithin, takeBytes]
    split
    · rw [ih, List.length_cons]
      omega
    · simp

theorem Text.distance?_eq (t : Text) (start stop : Nat) :
    t.distance? start stop = (t.slice? start stop).map List.length := by
  unfold distance? slice?
  split
  · split <;> simp [countWithin_eq]
  · simp

theorem Text.toList_cut (t : Text) (start stop : Nat) :
    (t.cut start stop).toList = t.slice start stop := by
  unfold cut slice slice?
  split
  · split <;> simp [toList_pushBytes]
  · simp

theorem utf8Size_pos (c : Char) : 0 < c.utf8Size :=
  Char.utf8Size_pos c

namespace Text

theorem size_pad (n : Nat) (acc : Array (Option (List Char))) :
    (pad n acc).size = acc.size + n := by
  induction n generalizing acc with
  | zero => rfl
  | succ n ih => rw [pad, ih]; simp; omega

theorem size_collect (cs : List Char) (acc : Array (Option (List Char))) :
    (collect cs acc).size = acc.size + byteLength cs + 1 := by
  induction cs generalizing acc with
  | nil => simp [collect, byteLength]
  | cons c cs ih =>
    have := utf8Size_pos c
    rw [collect, ih, size_pad, byteLength]
    simp
    omega

@[simp] theorem size_ofList (cs : List Char) : (ofList cs).size = byteLength cs := by
  simp [size, ofList, size_collect]

@[simp] theorem chars_ofList (cs : List Char) : (ofList cs).chars = cs := rfl

theorem getElem?_pad_of_lt (n : Nat) (acc : Array (Option (List Char))) (i : Nat)
    (h : i < acc.size) : (pad n acc)[i]? = acc[i]? := by
  induction n generalizing acc with
  | zero => rfl
  | succ n ih =>
    rw [pad, ih _ (by simp; omega), Array.getElem?_push_lt h, Array.getElem?_eq_getElem h]

theorem getElem?_pad_of_le (n : Nat) (acc : Array (Option (List Char))) (i : Nat)
    (h : acc.size ≤ i) (hn : i < acc.size + n) : (pad n acc)[i]? = some none := by
  induction n generalizing acc with
  | zero => omega
  | succ n ih =>
    rw [pad]
    by_cases hi : i = acc.size
    · rw [getElem?_pad_of_lt _ _ _ (by simp; omega), hi]
      simp
    · exact ih _ (by simp; omega) (by simp; omega)

theorem getElem?_collect_of_lt (cs : List Char) (acc : Array (Option (List Char))) (i : Nat)
    (h : i < acc.size) : (collect cs acc)[i]? = acc[i]? := by
  induction cs generalizing acc with
  | nil => rw [collect, Array.getElem?_push_lt h, Array.getElem?_eq_getElem h]
  | cons c cs ih =>
    rw [collect, ih _ (by rw [size_pad]; simp; omega),
      getElem?_pad_of_lt _ _ _ (by simp; omega), Array.getElem?_push_lt h,
      Array.getElem?_eq_getElem h]

theorem getElem?_collect (cs : List Char) (acc : Array (Option (List Char))) (i : Nat)
    (h : i ≤ byteLength cs) : (collect cs acc)[acc.size + i]? = some (dropBytes? i cs) := by
  induction cs generalizing acc i with
  | nil =>
    obtain rfl : i = 0 := by simpa [byteLength] using h
    simp [collect, dropBytes?]
  | cons c cs ih =>
    have hc := utf8Size_pos c
    rw [collect]
    cases i with
    | zero =>
      rw [getElem?_collect_of_lt _ _ _ (by rw [size_pad]; simp; omega),
        getElem?_pad_of_lt _ _ _ (by simp)]
      simp [dropBytes?]
    | succ i =>
      rw [dropBytes?]
      by_cases hi : c.utf8Size ≤ i + 1
      · have hs := ih (pad (c.utf8Size - 1) (acc.push (some (c :: cs)))) (i + 1 - c.utf8Size)
          (by rw [byteLength] at h; omega)
        rw [size_pad, Array.size_push,
          show acc.size + 1 + (c.utf8Size - 1) + (i + 1 - c.utf8Size) = acc.size + (i + 1) by
            omega] at hs
        rw [if_pos hi, hs]
      · rw [if_neg hi, getElem?_collect_of_lt _ _ _ (by rw [size_pad]; simp; omega),
          getElem?_pad_of_le _ _ _ (by simp) (by simp; omega)]

theorem dropBytes?_eq_none (cs : List Char) (i : Nat) (h : byteLength cs < i) :
    dropBytes? i cs = none := by
  induction cs generalizing i with
  | nil => cases i with
    | zero => simp [byteLength] at h
    | succ i => rfl
  | cons c cs ih => cases i with
    | zero => simp at h
    | succ i =>
      rw [dropBytes?]
      split
      · exact ih _ (by rw [byteLength] at h; omega)
      · rfl

theorem after?_ofList (cs : List Char) (i : Nat) : (ofList cs).after? i = dropBytes? i cs := by
  rw [after?, ofList, Array.getD_eq_getD_getElem?]
  by_cases h : i ≤ byteLength cs
  · have := getElem?_collect cs #[] i h
    simp only [List.size_toArray, List.length_nil, Nat.zero_add] at this
    rw [this]; rfl
  · rw [Array.getElem?_eq_none (by rw [size_collect]; simp; omega),
      dropBytes?_eq_none cs i (by omega)]
    rfl

end Text

end PhpSyntax
