/-! The order in which keys were last used. Each key stands in a slot of an arena and knows the
slots of its two neighbours in that order, so moving a key takes the same time however many
there are. A key keeps its slot until it leaves; the slot then waits on a stack and goes to one
of the next keys. A handle is the slot's number, and an old one acts on whatever key stands in
that slot now. -/

namespace Larder

structure Handle where
  slot : Nat
  deriving DecidableEq, Repr

namespace Recency

structure Node where
  key : String
  newer : Option Nat
  older : Option Nat
  deriving DecidableEq, Repr

end Recency

structure Recency where
  slots : Array (Option Recency.Node)
  /-- Empty slots, the next one to be used first. -/
  free : List Nat
  newest : Option Nat
  oldest : Option Nat
  size : Nat
  deriving DecidableEq, Repr

namespace Recency

def empty : Recency := ⟨#[], [], none, none, 0⟩

def node? (r : Recency) (i : Nat) : Option Node :=
  match r.slots[i]? with
  | some n => n
  | none => none

def isLive (r : Recency) (i : Nat) : Bool := (r.node? i).isSome

def slotCount (r : Recency) : Nat := r.slots.size

def isEmpty (r : Recency) : Bool := r.size == 0

def setNewer (r : Recency) (i : Nat) (newer : Option Nat) : Recency :=
  { r with slots := r.slots.modify i (Option.map fun n => { n with newer }) }

def setOlder (r : Recency) (i : Nat) (older : Option Nat) : Recency :=
  { r with slots := r.slots.modify i (Option.map fun n => { n with older }) }

/-- Closes the gap a key leaves between its neighbours. -/
def detach (r : Recency) (i : Nat) : Recency :=
  match r.node? i with
  | none => r
  | some n =>
    let r :=
      match n.newer with
      | some p => r.setOlder p n.older
      | none => { r with newest := n.older }
    let r :=
      match n.older with
      | some o => r.setNewer o n.newer
      | none => { r with oldest := n.newer }
    (r.setNewer i none).setOlder i none

/-- Puts a key that stands alone in front of all others. -/
def attachFront (r : Recency) (i : Nat) : Recency :=
  let front := r.newest
  let r := (r.setNewer i none).setOlder i front
  let r :=
    match front with
    | some f => r.setNewer f (some i)
    | none => { r with oldest := some i }
  { r with newest := some i }

/-- A key's slot, and the arena with the key in it, not yet linked to any other. -/
def place (r : Recency) (key : String) : Nat × Recency :=
  let node : Node := ⟨key, none, none⟩
  match r.free with
  | i :: free => (i, { r with slots := r.slots.setIfInBounds i (some node), free })
  | [] => (r.slots.size, { r with slots := r.slots.push (some node) })

def push (r : Recency) (key : String) : Handle × Recency :=
  let (i, r) := r.place key
  (⟨i⟩, { r with size := r.size + 1 }.attachFront i)

/-- Moves the key of a slot to the front; an empty slot is left alone. -/
def touch (r : Recency) (h : Handle) : Bool × Recency :=
  if !r.isLive h.slot then (false, r)
  else if r.newest = some h.slot then (true, r)
  else (true, (r.detach h.slot).attachFront h.slot)

def remove (r : Recency) (h : Handle) : Option String × Recency :=
  match r.node? h.slot with
  | none => (none, r)
  | some n =>
    let r := r.detach h.slot
    (some n.key,
      { r with
        slots := r.slots.setIfInBounds h.slot none
        free := h.slot :: r.free
        size := r.size - 1 })

def evictOldest (r : Recency) : Option String × Recency :=
  match r.oldest with
  | none => (none, r)
  | some i => r.remove ⟨i⟩

def get? (r : Recency) (h : Handle) : Option String := (r.node? h.slot).map Node.key

def peekOldest? (r : Recency) : Option String := r.oldest.bind fun i => r.get? ⟨i⟩

/-- The keys met on the way from a slot to ever older ones, in at most so many steps. -/
def keysFrom (r : Recency) : Nat → Option Nat → List String
  | 0, _ => []
  | _ + 1, none => []
  | fuel + 1, some i =>
    match r.node? i with
    | none => []
    | some n => n.key :: r.keysFrom fuel n.older

/-- All keys, the one used last first. -/
def keys (r : Recency) : List String := r.keysFrom r.slots.size r.newest

/-- The keys in the slots from `first` up to `stop`, which does not count, in the order of the
slots. -/
def keysInSlots (r : Recency) (first stop : Nat) : List String :=
  (r.slots.extract first stop).toList.filterMap fun slot => slot.map Node.key

end Recency

end Larder
