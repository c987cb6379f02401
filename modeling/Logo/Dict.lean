/-!
# Dictionaries

Finite maps from texts, kept as lists in strictly increasing order of the keys.  The order makes the
keys come out sorted and the representation unique: dictionaries with the same look-ups are equal
(`Dict.ext_get?`).
-/

namespace Logo

/-- A finite map from texts. -/
structure Dict (α : Type) where
  entries : List (String × α)
  sorted : entries.Pairwise fun x y => x.1 < y.1

namespace Dict

variable {α : Type}

/-- The dictionary without entries. -/
def empty : Dict α := ⟨[], .nil⟩

instance : Inhabited (Dict α) := ⟨empty⟩

/-- The value of the first entry with a key. -/
def find? (key : String) : List (String × α) → Option α
  | [] => none
  | (k, v) :: rest => if key = k then some v else find? key rest

/-- The value stored under a key. -/
def get? (d : Dict α) (key : String) : Option α :=
  find? key d.entries

/-- Whether a key is present. -/
def contains (d : Dict α) (key : String) : Bool :=
  (d.get? key).isSome

/-- The keys in increasing order. -/
def keys (d : Dict α) : List String :=
  d.entries.map (·.1)

/-- Puts an entry in its place among sorted entries. -/
def insertEntry (key : String) (value : α) : List (String × α) → List (String × α)
  | [] => [(key, value)]
  | (k, v) :: rest =>
    if key < k then (key, value) :: (k, v) :: rest
    else if k < key then (k, v) :: insertEntry key value rest
    else (key, value) :: rest

theorem mem_insertEntry {key : String} {value : α} {es : List (String × α)} {e : String × α}
    (h : e ∈ insertEntry key value es) : e = (key, value) ∨ e ∈ es := by
  induction es with
  | nil => exact .inl (List.mem_singleton.1 h)
  | cons x xs ih =>
    rw [insertEntry] at h
    split at h
    · exact (List.mem_cons.1 h).imp_right id
    · split at h
      · rcases List.mem_cons.1 h with h | h
        · exact .inr (h ▸ List.mem_cons_self)
        · exact (ih h).imp_right (List.mem_cons_of_mem _)
      · exact (List.mem_cons.1 h).imp_right (List.mem_cons_of_mem _)

theorem sorted_insertEntry {key : String} {value : α} {es : List (String × α)}
    (h : es.Pairwise fun x y => x.1 < y.1) :
    (insertEntry key value es).Pairwise fun x y => x.1 < y.1 := by
  induction es with
  | nil => exact List.pairwise_singleton _ _
  | cons x xs ih =>
    obtain ⟨hx, hxs⟩ := List.pairwise_cons.1 h
    rw [insertEntry]
    split
    · next hlt =>
      refine List.pairwise_cons.2 ⟨fun y hy => ?_, h⟩
      rcases List.mem_cons.1 hy with rfl | hy
      · exact hlt
      · exact String.lt_trans hlt (hx y hy)
    · next hnlt =>
      split
      · next hlt =>
        refine List.pairwise_cons.2 ⟨fun y hy => ?_, ih hxs⟩
        rcases mem_insertEntry hy with rfl | hy
        · exact hlt
        · exact hx y hy
      · next hngt =>
        have hk : key = x.1 := String.le_antisymm hngt hnlt
        exact List.pairwise_cons.2 ⟨fun y hy => hk ▸ hx y hy, hxs⟩

/-- Stores a value under a key. -/
def insert (d : Dict α) (key : String) (value : α) : Dict α :=
  ⟨insertEntry key value d.entries, sorted_insertEntry d.sorted⟩

theorem find?_insertEntry {key k : String} {value : α} {es : List (String × α)} :
    find? k (insertEntry key value es) = if k = key then some value else find? k es := by
  induction es with
  | nil => rfl
  | cons x xs ih =>
    obtain ⟨a, v⟩ := x
    rw [insertEntry]
    split
    · rfl
    · next hnlt =>
      split
      · next hlt =>
        have hne : key ≠ a := fun h => String.lt_irrefl _ (h ▸ hlt)
        by_cases h : k = key
        · subst h
          simp [find?, ih, hne]
        · simp [find?, ih, h]
      · next hngt =>
        have hka : key = a := String.le_antisymm hngt hnlt
        subst hka
        by_cases h : k = key <;> simp [find?, h]

/-- Storing a value changes the look-up of its key alone. -/
@[simp] theorem get?_insert {d : Dict α} {key k : String} {value : α} :
    (d.insert key value).get? k = if k = key then some value else d.get? k :=
  find?_insertEntry

@[simp] theorem get?_empty {key : String} : (empty : Dict α).get? key = none := rfl

theorem find?_eq_none_of_lt {k : String} {es : List (String × α)} (h : ∀ e ∈ es, k < e.1) :
    find? k es = none := by
  induction es with
  | nil => rfl
  | cons x xs ih =>
    have hne : k ≠ x.1 := fun hk => String.lt_irrefl _ (hk ▸ h x List.mem_cons_self)
    rw [find?, if_neg hne]
    exact ih fun e he => h e (List.mem_cons_of_mem _ he)

/-- A key below all others is found only if it is the first. -/
theorem not_lt_of_find?_eq {a b : String} {v w : α} {xs ys : List (String × α)}
    (hxa : ∀ e ∈ xs, a < e.1)
    (h : find? b ((a, v) :: xs) = find? b ((b, w) :: ys)) : ¬ b < a := by
  intro hlt
  have hb : find? b ((a, v) :: xs) = none :=
    find?_eq_none_of_lt fun e he => by
      rcases List.mem_cons.1 he with rfl | he
      · exact hlt
      · exact String.lt_trans hlt (hxa e he)
  rw [hb] at h
  simp [find?] at h

theorem entries_eq_of_find?_eq {xs ys : List (String × α)}
    (hx : xs.Pairwise fun x y => x.1 < y.1) (hy : ys.Pairwise fun x y => x.1 < y.1)
    (h : ∀ k, find? k xs = find? k ys) : xs = ys := by
  induction xs generalizing ys with
  | nil =>
    cases ys with
    | nil => rfl
    | cons y ys => simpa [find?] using h y.1
  | cons x xs ih =>
    obtain ⟨a, v⟩ := x
    obtain ⟨hxa, hxs⟩ := List.pairwise_cons.1 hx
    cases ys with
    | nil => simpa [find?] using h a
    | cons y ys =>
      obtain ⟨b, w⟩ := y
      obtain ⟨hyb, hys⟩ := List.pairwise_cons.1 hy
      have hab : a = b :=
        String.le_antisymm (not_lt_of_find?_eq hxa (h b)) (not_lt_of_find?_eq hyb (h a).symm)
      subst hab
      have hvw : v = w := by simpa [find?] using h a
      subst hvw
      congr 1
      refine ih hxs hys fun k => ?_
      by_cases hk : k = a
      · rw [hk, find?_eq_none_of_lt hxa, find?_eq_none_of_lt hyb]
      · simpa [find?, hk] using h k

/-- Dictionaries with the same look-ups are equal. -/
theorem ext_get? {d e : Dict α} (h : ∀ key, d.get? key = e.get? key) : d = e := by
  obtain ⟨xs, hx⟩ := d
  obtain ⟨ys, hy⟩ := e
  cases entries_eq_of_find?_eq hx hy h
  rfl

end Dict

end Logo
