import Mathlib.Logic.Function.Basic
import PubsubVenue.Machine

/-! # The message queue between threads

`LockFreeMessageQueue`: a list of nodes to which any number of producers append and from which one
consumer takes. A producer first exchanges `head_` for its node and only then links the node behind
the one that `head_` named, so that the list is broken in between. When one node is left the
consumer appends the stub, the one node that is not from the pool, behind it.

The actions are the atomic steps of `enqueue` and `dequeue`, and the writes to a node that no other
thread can reach are one step. The pool hands out any node that is free. -/

namespace PubsubVenue

/-- A node: the stub, or one from the pool. -/
inductive QueueNode
  | stub
  | pool (n : Nat)
  deriving DecidableEq

/-- `LockFreeMessageQueue::Node`. -/
structure QueueNode.Content (M : Type*) where
  next : Option QueueNode
  data : Option M
  deriving DecidableEq

/-- Where a producer is in `enqueue`. -/
inductive ProducerPoint (M : Type*)
  | idle
  /-- It has a node from the pool. -/
  | allocated (n : Nat) (message : M)
  /-- The node holds the message. -/
  | filled (n : Nat) (message : M)
  /-- `head_` names the node, and `prev_head` is not linked to it yet. -/
  | exchanged (n : Nat) (prevHead : QueueNode)
  deriving DecidableEq

/-- Where the consumer is in `dequeue`. -/
inductive ConsumerPoint (M : Type*)
  | idle
  /-- It has gone from the stub to `tail`, and loads its `next_`. -/
  | pastStub (tail : QueueNode)
  /-- It takes the message of `tail`, which is linked to `next`. -/
  | taking (tail next : QueueNode)
  /-- It returns the node to the pool. -/
  | freeing (tail : QueueNode) (message : M)
  /-- Nothing is linked behind `tail`, and it loads `head_`. -/
  | atLast (tail : QueueNode)
  /-- `enqueue_stub_`: it clears the stub, exchanges `head_` for it, and links it. -/
  | clearingStub (tail : QueueNode)
  | exchangingStub (tail : QueueNode)
  | linkingStub (tail prevHead : QueueNode)
  /-- It loads the `next_` of `tail` again. -/
  | loadingAgain (tail : QueueNode)
  deriving DecidableEq

/-- **The queue, its producers and its consumer**. Beside the fields of the source: the messages in
the order in which `head_` was exchanged, those taken, the results of `dequeue`, and whether a node
was written to after it was returned to the pool. -/
structure MessageQueue (P M : Type*) where
  nodes : QueueNode → QueueNode.Content M
  head : QueueNode
  tail : QueueNode
  allocated : Nat → Bool
  producers : P → ProducerPoint M
  consumer : ConsumerPoint M
  exchanged : List (P × M)
  dequeued : List M
  returned : List (Option M)
  wroteFreed : Bool

/-- The atomic steps of the threads. -/
inductive QueueAction (P M : Type*)
  /-- A producer begins to enqueue a message, in the node that the pool hands out. -/
  | allocate (p : P) (message : M) (n : Nat)
  | fill (p : P)
  | exchange (p : P)
  | link (p : P)
  | consume

namespace MessageQueue

variable {P M : Type*}

/-- A queue that has been constructed. -/
def fresh : MessageQueue P M :=
  { nodes := fun _ => { next := none, data := none }, head := .stub, tail := .stub
    allocated := fun _ => false, producers := fun _ => .idle, consumer := .idle
    exchanged := [], dequeued := [], returned := [], wroteFreed := false }

section

variable (q : MessageQueue P M)

/-- The node is the stub or has been handed out by the pool. -/
def isLive : QueueNode → Bool
  | .stub => true
  | .pool n => q.allocated n

/-- Write to a node. -/
def write (node : QueueNode) (content : QueueNode.Content M) : MessageQueue P M :=
  { q with nodes := Function.update q.nodes node content, wroteFreed := q.wroteFreed || !q.isLive node }

/-- `next_.store`. -/
def storeNext (node : QueueNode) (next : Option QueueNode) : MessageQueue P M :=
  q.write node { q.nodes node with next }

/-- `dequeue` returns. -/
def returns (result : Option M) : MessageQueue P M :=
  { q with consumer := .idle, returned := q.returned ++ [result] }

/-- What the consumer does once it has loaded the `next_` of a node that is not the stub. -/
def loaded (tail : QueueNode) : Option QueueNode → MessageQueue P M
  | some next => { q with consumer := .taking tail next }
  | none => { q with consumer := .atLast tail }

/-- **`dequeue`**, a step at a time. It is `none` where a message is taken from a node that holds
none, or the stub is returned to the pool. -/
def consume : Option (MessageQueue P M) :=
  match q.consumer with
  | .idle =>
    if q.tail = .stub then
      match (q.nodes .stub).next with
      | none => some (q.returns none)
      | some next => some { q with tail := next, consumer := .pastStub next }
    else some (q.loaded q.tail (q.nodes q.tail).next)
  | .pastStub tail => some (q.loaded tail (q.nodes tail).next)
  | .taking tail next =>
    (q.nodes tail).data.map fun message =>
      { q with
        nodes := Function.update q.nodes tail { q.nodes tail with data := none }
        tail := next, dequeued := q.dequeued ++ [message], consumer := .freeing tail message }
  | .freeing tail message =>
    match tail with
    | .stub => none
    | .pool n =>
      some ({ q with allocated := Function.update q.allocated n false }.returns (some message))
  | .atLast tail =>
    if q.head = tail then some { q with consumer := .clearingStub tail } else some (q.returns none)
  | .clearingStub tail => some { q.storeNext .stub none with consumer := .exchangingStub tail }
  | .exchangingStub tail => some { q with head := .stub, consumer := .linkingStub tail q.head }
  | .linkingStub tail prevHead =>
    some { q.storeNext prevHead (some .stub) with consumer := .loadingAgain tail }
  | .loadingAgain tail =>
    match (q.nodes tail).next with
    | some next => some { q with consumer := .taking tail next }
    | none => some (q.returns none)

end

variable [DecidableEq P]

/-- A producer goes on. -/
def setProducer (q : MessageQueue P M) (p : P) (point : ProducerPoint M) : MessageQueue P M :=
  { q with producers := Function.update q.producers p point }

/-- **What each step does.** -/
def step : Machine (MessageQueue P M) (QueueAction P M)
  | q, .allocate p message n =>
    match q.producers p with
    | .idle =>
      if q.allocated n then none
      else some ({ q with allocated := Function.update q.allocated n true }.setProducer p
        (.allocated n message))
    | .allocated .. | .filled .. | .exchanged .. => none
  | q, .fill p =>
    match q.producers p with
    | .allocated n message =>
      some ((q.write (.pool n) { next := none, data := some message }).setProducer p (.filled n message))
    | .idle | .filled .. | .exchanged .. => none
  | q, .exchange p =>
    match q.producers p with
    | .filled n message =>
      some ({ q with head := .pool n, exchanged := q.exchanged ++ [(p, message)] }.setProducer p
        (.exchanged n q.head))
    | .idle | .allocated .. | .exchanged .. => none
  | q, .link p =>
    match q.producers p with
    | .exchanged n prevHead => some ((q.storeNext prevHead (some (.pool n))).setProducer p .idle)
    | .idle | .allocated .. | .filled .. => none
  | q, .consume => q.consume

/-- **`empty`**. -/
def empty (q : MessageQueue P M) : Bool := q.tail = .stub && (q.nodes .stub).next.isNone

/-- A call of `dequeue` during which no other thread takes a step, and what it returns: at most so
many steps. -/
def dequeueAlone : Nat → MessageQueue P M → Option (MessageQueue P M × Option M)
  | 0, _ => none
  | steps + 1, q =>
    q.consume.bind fun r =>
      match r.consumer with
      | .idle => r.returned.getLast?.map fun result => (r, result)
      | _ => dequeueAlone steps r

end MessageQueue

end PubsubVenue
