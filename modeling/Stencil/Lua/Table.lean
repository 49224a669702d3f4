import Stencil.Lua.Value
/-!
# Tables

A table keeps the values under one, two, three and so on as items, and those under other keys in
nodes. A key belongs to the node that its code points to; a key whose node is taken goes to a free
one, and the nodes with the same point are linked. When no node is free, the table is laid out anew:
the items become as many as are filled by more than half, and the rest goes to nodes, whose number
is a power of two.

The length is a place where a value is followed by none. There may be several such places, and which
one it is depends on the layout; the limit tells how far the items were last found to be filled.
-/
namespace Stencil.Lua

/-- A key with its value. A node without a key is free. -/
structure Node where
  key : Value := .nil
  value : Value := .nil
  /-- The next node with the same point. -/
  next : Option Nat := none
deriving Repr, Inhabited

structure Table where
  items : Array Value := #[]
  limit : Nat := 0
  nodes : Array Node := #[]
  /-- No node from here on is free. -/
  free : Nat := 0
  /-- The table came from a list and stays one when it goes out. -/
  isList : Bool := false
deriving Repr, Inhabited

namespace Table

/-- The least power of two, as an exponent, that is not less than a positive number. -/
def ceilLog (n : Nat) : Nat := if n ≤ 1 then 0 else (n - 1).log2 + 1

def isPowerOfTwo (n : Nat) : Bool := n &&& (n - 1) == 0

def nodeCount (keys : Nat) : Nat := if keys = 0 then 0 else Nat.pow 2 (ceilLog keys)

/-- A table without values, laid out for so many items and keys. -/
def ofSizes (items keys : Nat) : Table :=
  { items := Array.replicate items .nil, limit := items
    nodes := Array.replicate (nodeCount keys) {}, free := nodeCount keys }

/-- A key in the form in which it is kept. -/
def normalKey : Value → Value
  | .number n => .number n.normalize
  | key => key

/-- The index among the items that a key in its form may name. -/
def itemIndex? : Value → Option Nat
  | .number (.int n) => if 0 < n then some (n.toInt.toNat - 1) else none
  | _ => none

/-- The code of a double: the first 31 bits of its mantissa and its exponent in one word of 32 bits,
with all bits reversed if the first one is set. -/
def floatCode (x : Float) : Nat :=
  if x.isInf then 0
  else
    let m := Magnitude.ofFloat x
    let width := m.mantissa.log2 + 1
    let leading : Int := m.mantissa * Nat.pow 2 31 / Nat.pow 2 width
    let word := ((m.exponent + width + if x < 0 then -leading else leading) % Nat.pow 2 32).toNat
    if word < Nat.pow 2 31 then word else Nat.pow 2 32 - 1 - word

/-- The code of a key, which spreads keys over the nodes. -/
def keyCode : Value → Nat
  | .nil => 0
  | .bool b => b.toNat
  | .number (.int n) => n.toUInt64.toNat
  | .number (.float x) => floatCode x
  | .number (.nan _) => 0
  | .string s => (s.foldl (fun (code : UInt32) b => code * 31 + b.toUInt32) 7).toNat
  | .table place | .closure place => place
  | .builtin _ => 1
  | .failure place _ => place

/-- The node that a key belongs to, among so many. -/
def point (count : Nat) (key : Value) : Nat :=
  match key with
  -- an odd divisor, since many numbers share factors with a power of two
  | .number _ => keyCode key % ((count - 1) ||| 1)
  | _ => keyCode key % count

/-- The node of a key among linked nodes; the number bounds how many there are. -/
def findFrom (t : Table) (key : Value) : Nat → Nat → Option Nat
  | 0, _ => none
  | count + 1, i =>
    let node := t.nodes.getD i {}
    if node.key.same key then some i
    else
      match node.next with
      | some j => findFrom t key count j
      | none => none

def find? (t : Table) (key : Value) : Option Nat :=
  if t.nodes.isEmpty then none else findFrom t key t.nodes.size (point t.nodes.size key)

def getNormal (t : Table) (key : Value) : Value :=
  match (itemIndex? key).bind (t.items[·]?) with
  | some v => v
  | none =>
    match t.find? key with
    | some i => (t.nodes.getD i {}).value
    | none => .nil

def get (t : Table) (key : Value) : Value := t.getNormal (normalKey key)

/-- Whether looking for a key moves the limit: it names an item beyond it. -/
def reaches (t : Table) (key : Value) : Bool :=
  match itemIndex? key with
  | some i => t.limit ≤ i && i < t.items.size
  | none => false

/-- The table after a look for a key in its form. -/
def reach (t : Table) (key : Value) : Table :=
  match itemIndex? key with
  | some i => if t.limit ≤ i && i < t.items.size then { t with limit := i + 1 } else t
  | none => t

def setItem (t : Table) (i : Nat) (value : Value) : Table :=
  { t with items := t.items.setIfInBounds i value }

def getInt (t : Table) (n : Nat) : Value := t.getNormal (.ofInt n)

/-! ## Nodes -/

def freeBefore? (nodes : Array Node) : Nat → Option Nat
  | 0 => none
  | i + 1 => if (nodes.getD i {}).key.isNil then some i else freeBefore? nodes i

def leadingTo (nodes : Array Node) (target : Nat) : Nat → Nat → Nat
  | 0, i => i
  | count + 1, i =>
    match (nodes.getD i {}).next with
    | some j => if j = target then i else leadingTo nodes target count j
    | none => i

/-- Put a key that the table lacks into a node, with a value that is not nil. Tells whether there
was a node for it. -/
def claim (t : Table) (key value : Value) : Bool × Table :=
  if t.nodes.isEmpty then (false, t)
  else
    let home := point t.nodes.size key
    let node := t.nodes.getD home {}
    if node.value.isNil then
      (true, { t with nodes := t.nodes.setIfInBounds home { node with key, value } })
    else
      match freeBefore? t.nodes t.free with
      | none => (false, t)
      | some f =>
        let other := point t.nodes.size node.key
        -- a key at home stays, and the new one is linked in behind it; one that is not moves away
        if other = home then
          (true, { t with
            free := f
            nodes := (t.nodes.setIfInBounds f { key, value, next := node.next }).setIfInBounds home
              { node with next := some f } })
        else
          let before := leadingTo t.nodes home t.nodes.size other
          (true, { t with
            free := f
            nodes := ((t.nodes.modify before fun n => { n with next := some f }).setIfInBounds f
              node).setIfInBounds home { key, value } })

/-! ## Layout -/

/-- The largest exponent of two that a number of items may have. -/
def maxItemsLog : Nat := 31

def countIndex (counts : Array Nat) (key : Value) : Array Nat :=
  match itemIndex? key with
  | some i =>
    if i < Nat.pow 2 maxItemsLog then counts.modify (ceilLog (i + 1)) (· + 1) else counts
  | none => counts

def countItems (items : Array Value) (counts : Array Nat) : Array Nat :=
  (items.foldl (fun (state : Nat × Array Nat) v =>
    (state.1 + 1,
      if v.isNil then state.2 else state.2.modify (ceilLog (state.1 + 1)) (· + 1))) (0, counts)).2

/-- The number of items, a power of two that is filled by more than half, and how many fill it,
given how many indices there are in all and what was found for lower powers. -/
def chooseItems (counts : Array Nat) (total : Nat) : Nat → Nat → Nat → Nat × Nat → Nat × Nat
  | 0, _, _, best => best
  | bound + 1, exponent, sum, best =>
    if Nat.pow 2 exponent / 2 < total then
      let sum := sum + counts.getD exponent 0
      chooseItems counts total bound (exponent + 1) sum
        (if Nat.pow 2 exponent / 2 < sum then (Nat.pow 2 exponent, sum) else best)
    else best

/-- Put a value under a key in its form, where there is a place for it. -/
def put (t : Table) (key value : Value) : Table :=
  match itemIndex? key with
  | some i =>
    if i < t.items.size then (t.reach key).setItem i value else putNode t
  | none => putNode t
where
  putNode (t : Table) : Table :=
    match t.find? key with
    | some i => { t with nodes := t.nodes.modify i fun n => { n with value } }
    | none => if value.isNil then t else (t.claim key value).2

def resize (t : Table) (items keys : Nat) : Table :=
  let count := nodeCount keys
  let bare : Table :=
    { items := #[], limit := 0, nodes := Array.replicate count {}, free := count
      isList := t.isList }
  let moved :=
    (List.range (t.items.size - items)).foldl (fun (u : Table) k =>
      let v := t.items.getD (items + k) .nil
      if v.isNil then u else u.put (.ofInt (items + k + 1)) v) bare
  let kept :=
    if items ≤ t.items.size then t.items.extract 0 items
    else t.items ++ Array.replicate (items - t.items.size) .nil
  -- nodes go last, when the items are there that their keys may belong to
  t.nodes.foldl (fun u n => if n.value.isNil then u else u.put n.key n.value)
    { moved with items := kept, limit := items }

/-- Lay the table out for what is in it and a key more. -/
def relayout (t : Table) (key : Value) : Table :=
  let live := t.nodes.toList.filter fun n => !n.value.isNil
  let counts := countItems t.items (Array.replicate (maxItemsLog + 1) 0)
  let inItems := counts.foldl (· + ·) 0
  let counts := countIndex (live.foldl (fun counts n => countIndex counts n.key) counts) key
  let total := counts.foldl (· + ·) 0
  let (items, filled) := chooseItems counts total (maxItemsLog + 1) 0 0 (0, 0)
  t.resize items (inItems + live.length + 1 - filled)

/-- Put a value under a key that is neither nil nor not a number. -/
def set (t : Table) (key value : Value) : Table :=
  let key := normalKey key
  match itemIndex? key with
  | some i =>
    if i < t.items.size then (t.reach key).setItem i value else setNode t key
  | none => setNode t key
where
  setNode (t : Table) (key : Value) : Table :=
    match t.find? key with
    | some i => { t with nodes := t.nodes.modify i fun n => { n with value } }
    | none =>
      if value.isNil then t
      else
        match t.claim key value with
        | (true, t) => t
        | (false, t) => (t.relayout key).put key value

/-- Put values under consecutive indices, the first one under the given index plus one. -/
def setItems (t : Table) (offset : Nat) (values : List Value) : Table :=
  let size := offset + values.length
  let keys := t.nodes.size
  let t := if t.items.size < size then t.resize size keys else t
  { t with
    items := (values.foldl (fun (state : Nat × Array Value) v =>
      (state.1 + 1, state.2.setIfInBounds state.1 v)) (offset, t.items)).2 }

/-! ## Length -/

/-- Halve an interval whose lower end holds a value, or is zero, and whose upper end does not. -/
def border (has : Nat → Bool) : Nat → Nat → Nat → Nat
  | 0, low, _ => low
  | count + 1, low, high =>
    if high - low ≤ 1 then low
    else
      let middle := (low + high) / 2
      if has middle then border has count middle high else border has count low middle

def hasItem (t : Table) (n : Nat) : Bool := !(t.items.getD (n - 1) .nil).isNil

def maxIndex : Nat := Nat.pow 2 63 - 1

/-- Double an index that holds a value until one does not, and halve the interval between them. -/
def borderBeyond (t : Table) : Nat → Nat → Nat
  | 0, low => low
  | count + 1, low =>
    let high := if low ≤ maxIndex / 2 then low * 2 else maxIndex
    if !(t.getInt high).isNil then
      if high = maxIndex then high else borderBeyond t count high
    else border (fun n => !(t.getInt n).isNil) 64 low high

/-- The length, and the table with its limit where it was found. -/
def length (t : Table) : Nat × Table :=
  let n := t.limit
  let size := t.items.size
  if 0 < n && !t.hasItem n then
    if 2 ≤ n && t.hasItem (n - 1) then
      -- the limit moves only where the number of items can still be told from it
      (n - 1,
        if isPowerOfTwo size && !isPowerOfTwo (n - 1) then { t with limit := n - 1 } else t)
    else
      let low := border t.hasItem n 0 n
      (low, if isPowerOfTwo size && size / 2 < low then { t with limit := low } else t)
  else if n < size then
    if !t.hasItem (n + 1) then (n, t)
    else if !t.hasItem size then
      let low := border t.hasItem size n size
      (low, { t with limit := low })
    else (beyond size, t)
  else (beyond size, t)
where
  /-- The length of a table whose items are filled up to the last one. -/
  beyond (size : Nat) : Nat :=
    if (t.getInt (size + 1)).isNil then size
    else borderBeyond t 64 (max 1 size)

def entries (t : Table) : List (Value × Value) :=
  ((List.range t.items.size).filterMap fun i =>
    let v := t.items.getD i .nil
    if v.isNil then none else some (.ofInt (i + 1), v)) ++
  (t.nodes.toList.filterMap fun n => if n.value.isNil then none else some (n.key, n.value))

end Table

end Stencil.Lua
