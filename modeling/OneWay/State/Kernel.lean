/-!
# Updating a vector pair by pair

Amplitudes are stored by index: bit `q` of the index is the value of wire `q`. A gate on wire `q`
acts on each pair of entries whose indices differ in bit `q` alone, and the updates here do so in
place, one index after another.

Nothing is assumed of the entries: the theory of these updates is the same for every type.
-/

namespace OneWay.Kernel

variable {α : Type}

/-- The index with bit `q` set. -/
def partner (q i : Nat) : Nat := i ||| (1 <<< q)

/-- Replaces the entries at an index with bit `q` clear and at its partner. -/
def pairStep (f : α → α → α × α) (q : Nat) (v : Array α) (i : Nat) : Option (Array α) :=
  if i.testBit q then some v
  else if h : i < v.size ∧ partner q i < v.size then
    let r := f (v[i]) (v[partner q i])
    some ((v.set i r.1 h.1).set (partner q i) r.2 (by simpa using h.2))
  else none

/-- Replaces every pair of entries whose indices differ in bit `q`; there is no result if an
entry has no partner in the vector. -/
def onPairs (f : α → α → α × α) (q : Nat) (v : Array α) : Option (Array α) :=
  (List.range v.size).foldlM (pairStep f q) v

/-- Exchanges the entries at an index with bit `control` set and bit `target` clear and at its
partner. -/
def exchangeStep (control target : Nat) (v : Array α) (i : Nat) : Option (Array α) :=
  if i.testBit control && !i.testBit target then
    if h : i < v.size ∧ partner target i < v.size then some (v.swap i (partner target i) h.1 h.2)
    else none
  else some v

/-- Exchanges the entries of every pair that differs in bit `target`, where bit `control` is
set. -/
def exchange (control target : Nat) (v : Array α) : Option (Array α) :=
  (List.range v.size).foldlM (exchangeStep control target) v

/-- Replaces each entry according to its index. -/
def onEach (f : Nat → α → α) (v : Array α) : Array α := v.mapIdx f

/-- The index with bit `q` flipped, which is that without it if it is set. -/
def across (q i : Nat) : Nat := i ^^^ (1 <<< q)

/-- Moves the entry at an index with bit `q` set to the index without it, and leaves `zero`. -/
def lowerStep (zero : α) (q : Nat) (v : Array α) (i : Nat) : Option (Array α) :=
  if i.testBit q then
    if h : i < v.size ∧ across q i < v.size then
      some ((v.set (across q i) v[i] h.2).set i zero (by simpa using h.1))
    else none
  else some v

/-- Moves every entry whose index has bit `q` to the index without it. -/
def lower (zero : α) (q : Nat) (v : Array α) : Option (Array α) :=
  (List.range v.size).foldlM (lowerStep zero q) v

end OneWay.Kernel
