/-!
# A supply of fresh names

Fresh names are drawn from the sequence `A, B, …, Z, AA, BB, …, ZZ, AAA, …`.  The supply keeps the
names in use and a cursor into the sequence; every name before the cursor is in use, so that the
next name is the first one of the whole sequence that is free.
-/

namespace GrammarSampler

/-- The name at place `i` of the sequence: one letter, repeated once more in every round. -/
def letterName (i : Nat) : String :=
  String.ofList (List.replicate (i / 26 + 1) (Char.ofNat ('A'.toNat + i % 26)))

/-- The names in use and the place from which the next name is sought. -/
structure NameSupply where
  used : List String
  cursor : Nat
  nodup : used.Nodup

namespace NameSupply

/-- No name is in use. -/
def empty : NameSupply := ⟨[], 0, List.nodup_nil⟩

/-- Marks `name` as used. -/
def reserve (s : NameSupply) (name : String) : NameSupply :=
  if h : name ∈ s.used then s else ⟨name :: s.used, s.cursor, List.nodup_cons.2 ⟨h, s.nodup⟩⟩

/-- The supply in which exactly `names` are in use. -/
def ofUsed (names : List String) : NameSupply := names.foldl reserve empty

def isUsed (s : NameSupply) (name : String) : Bool := decide (name ∈ s.used)

/-- The number of names in use. -/
def usedCount (s : NameSupply) : Nat := s.used.length

/-- The first place from `i` on whose name is not in `used`, among the next `n` places; `n` places
further on if all those names are in use. -/
def freePlace (used : List String) : Nat → Nat → Nat
  | 0, i => i
  | n + 1, i => if letterName i ∈ used then freePlace used n (i + 1) else i

/-- The place of the next name.  One of `used.length + 1` different names is free. -/
def nextPlace (s : NameSupply) : Nat := freePlace s.used s.used.length s.cursor

/-- The next free name, which is in use from then on. -/
def next (s : NameSupply) : String × NameSupply :=
  let name := letterName s.nextPlace
  (name, { s.reserve name with cursor := s.nextPlace + 1 })

/-- The next `n` free names. -/
def take : Nat → NameSupply → List String × NameSupply
  | 0, s => ([], s)
  | n + 1, s =>
    let (name, s) := s.next
    let (names, s) := take n s
    (name :: names, s)

theorem mem_used_reserve {s : NameSupply} {a b : String} :
    b ∈ (s.reserve a).used ↔ b = a ∨ b ∈ s.used := by
  unfold reserve
  split
  · next h => exact ⟨.inr, fun hb => hb.elim (· ▸ h) id⟩
  · exact List.mem_cons

theorem usedCount_reserve (s : NameSupply) (a : String) :
    (s.reserve a).usedCount = if a ∈ s.used then s.usedCount else s.usedCount + 1 := by
  unfold reserve usedCount
  split <;> simp_all

theorem mem_used_foldl {names : List String} {s : NameSupply} {b : String} :
    b ∈ (names.foldl reserve s).used ↔ b ∈ names ∨ b ∈ s.used := by
  induction names generalizing s with
  | nil => simp
  | cons a names ih =>
    rw [List.foldl_cons, ih, mem_used_reserve, List.mem_cons, or_left_comm, or_assoc]

theorem mem_used_ofUsed {names : List String} {b : String} :
    b ∈ (ofUsed names).used ↔ b ∈ names := by
  rw [ofUsed, mem_used_foldl]
  simp [empty]

end NameSupply

end GrammarSampler
