import Mathlib.Data.List.Nodup
import Mathlib.Data.List.ReduceOption
import PubsubVenue.Queue.LockFreeMessageQueue

/-! # The queue is a FIFO that loses nothing

The nodes from `tail_` to `head_`, in the order in which `head_` was exchanged, are a chain: each is
linked to the next, or the thread that exchanged `head_` has still to link it. The messages of the
chain are those not yet taken. A node leaves the chain only once it is linked, and then no thread
has still to write to it.

* **`MessageQueue.Chained`**: what is true of the chain, the producers and the consumer.
* **`MessageQueue.fifo`**: messages are taken in the order of the exchanges and `dequeue` returns
  what was taken, no node is written to after it was returned to the pool, and with no enqueue in
  progress `dequeue` returns the next message; it returns nothing, and `empty` is true, only when
  every message has been taken. -/

namespace PubsubVenue

open Function List

/-! ## Neighbours in a list -/

/-- One element stands right before another in a list. -/
def Adjacent {α : Type*} : List α → α → α → Prop
  | x :: y :: l, a, b => x = a ∧ y = b ∨ Adjacent (y :: l) a b
  | [_], _, _ => False
  | [], _, _ => False

namespace Adjacent

variable {α : Type*} {l : List α} {a b c x : α}

theorem mem (h : Adjacent l a b) : a ∈ l ∧ b ∈ l := by
  induction l with
  | nil => cases h
  | cons y l ih =>
    cases l with
    | nil => cases h
    | cons =>
      rcases h with ⟨rfl, rfl⟩ | h
      · simp
      · exact ⟨mem_cons_of_mem _ (ih h).1, mem_cons_of_mem _ (ih h).2⟩

/-- The neighbours in a list with one element more in front. -/
theorem cons_iff : Adjacent (x :: l) a b ↔ x = a ∧ l.head? = some b ∨ Adjacent l a b := by
  cases l with
  | nil | cons => simp [Adjacent]

/-- The neighbours in a list with one element more behind. -/
theorem append_singleton_iff : Adjacent (l ++ [x]) a b ↔ Adjacent l a b ∨ l.getLast? = some a ∧ x = b := by
  induction l with
  | nil => simp [Adjacent]
  | cons y l ih =>
    cases l with
    | nil => simp [Adjacent]
    | cons z l =>
      have hfront : Adjacent (y :: z :: l) a b ↔ y = a ∧ z = b ∨ Adjacent (z :: l) a b := Iff.rfl
      rw [cons_append, cons_iff, ih, hfront, getLast?_cons_cons, or_assoc]
      simp

/-- In a list without repetition an element has one neighbour behind it. -/
theorem right_unique (hl : l.Nodup) (h : Adjacent l a b) (h' : Adjacent l a c) : b = c := by
  induction l with
  | nil => cases h
  | cons x l ih =>
    rw [nodup_cons] at hl
    rcases cons_iff.mp h with ⟨rfl, hb⟩ | hb
    · rcases cons_iff.mp h' with ⟨-, hc⟩ | hc
      · exact Option.some.inj (hb.symm.trans hc)
      · exact absurd hc.mem.1 hl.1
    · rcases cons_iff.mp h' with ⟨rfl, hc⟩ | hc
      · exact absurd hb.mem.1 hl.1
      · exact ih hl.2 hb hc

/-- The last element has no neighbour behind it. -/
theorem ne_getLast (hl : l.Nodup) (h : Adjacent l a b) : l.getLast? ≠ some a := by
  induction l with
  | nil => cases h
  | cons x l ih =>
    rw [nodup_cons] at hl
    cases l with
    | nil => cases h
    | cons =>
      rw [getLast?_cons_cons]
      rcases h with ⟨rfl, -⟩ | h
      · exact fun hlast => hl.1 (mem_of_getLast? hlast)
      · exact ih hl.2 h

/-- The first element has no neighbour in front of it. -/
theorem ne_head (hl : (x :: l).Nodup) (h : Adjacent (x :: l) a b) : b ≠ x := by
  rw [nodup_cons] at hl
  rintro rfl
  rcases cons_iff.mp h with ⟨-, hb⟩ | hb
  · exact hl.1 (mem_of_head? hb)
  · exact hl.1 hb.mem.2

end Adjacent

/-! ## The chain -/

/-- The node that a producer works with. -/
def ProducerPoint.node {M : Type*} : ProducerPoint M → Option Nat
  | .idle => none
  | .allocated n _ | .filled n _ | .exchanged n _ => some n

/-- The message that the consumer has taken and not yet returned. -/
def ConsumerPoint.inHand {M : Type*} : ConsumerPoint M → List M
  | .freeing _ message => [message]
  | _ => []

namespace MessageQueue

variable {P M : Type*} {q r : MessageQueue P M} {chain : List QueueNode}

/-- A thread has still to link the two nodes. -/
def WillLink (q : MessageQueue P M) (a b : QueueNode) : Prop :=
  (∃ p n, q.producers p = .exchanged n a ∧ b = .pool n) ∨ ∃ tail, q.consumer = .linkingStub tail a ∧ b = .stub

/-- What is true of a producer's node, wherever the producer is. -/
def ProducerFact (q : MessageQueue P M) (chain : List QueueNode) : ProducerPoint M → Prop
  | .idle => True
  | .allocated n _ => .pool n ∉ chain
  | .filled n message => .pool n ∉ chain ∧ q.nodes (.pool n) = { next := none, data := some message }
  | .exchanged n prevHead => Adjacent chain prevHead (.pool n) ∧ (q.nodes prevHead).next = none

/-- What is true of the consumer's node, wherever the consumer is. -/
def ConsumerFact (q : MessageQueue P M) (chain : List QueueNode) : ConsumerPoint M → Prop
  | .idle => True
  | .pastStub tail | .atLast tail | .loadingAgain tail => q.tail = tail ∧ tail ≠ .stub
  | .taking tail next => q.tail = tail ∧ tail ≠ .stub ∧ (q.nodes tail).next = some next
  | .freeing tail _ => ∃ n, tail = .pool n ∧ q.allocated n = true ∧ tail ∉ chain ∧
    ∀ p, (q.producers p).node ≠ some n
  | .clearingStub tail => q.tail = tail ∧ tail ≠ .stub ∧ .stub ∉ chain
  | .exchangingStub tail => q.tail = tail ∧ tail ≠ .stub ∧ .stub ∉ chain ∧ (q.nodes .stub).next = none
  | .linkingStub tail prevHead => q.tail = tail ∧ tail ≠ .stub ∧ Adjacent chain prevHead .stub ∧
      (q.nodes prevHead).next = none

/-- **What is true of the queue**, with the nodes from `tail_` to `head_` in the order of the
exchanges. -/
structure Chained (q : MessageQueue P M) (chain : List QueueNode) : Prop where
  nodup : chain.Nodup
  first : chain.head? = some q.tail
  last : chain.getLast? = some q.head
  linked : ∀ a b, Adjacent chain a b → (q.nodes a).next = some b ∨ (q.nodes a).next = none ∧ q.WillLink a b
  unlinked : (q.nodes q.head).next = none
  full : ∀ n, .pool n ∈ chain → q.allocated n = true ∧ (q.nodes (.pool n)).data.isSome = true
  stub : (q.nodes .stub).data = none
  messages : q.exchanged.map Prod.snd = q.dequeued ++ chain.filterMap fun a => (q.nodes a).data
  owned : ∀ p n, (q.producers p).node = some n → q.allocated n = true
  owner : ∀ p p' n, (q.producers p).node = some n → (q.producers p').node = some n → p = p'
  producers : ∀ p, q.ProducerFact chain (q.producers p)
  consumer : q.ConsumerFact chain q.consumer
  unfreed : q.wroteFreed = false

namespace Chained

section

variable (h : q.Chained chain)
include h

theorem isLive_of_mem {a : QueueNode} (ha : a ∈ chain) : q.isLive a = true := by
  cases a with
  | stub => rfl
  | pool n => exact (h.full n ha).1

/-- The node behind one that is linked is the one it is linked to. -/
theorem eq_of_next {a b x : QueueNode} (hab : Adjacent chain a b) (hx : (q.nodes a).next = some x) :
    x = b := by
  rcases h.linked a b hab with hb | ⟨hnone, -⟩
  · exact Option.some.inj (hx.symm.trans hb)
  · rw [hnone] at hx
    cases hx

/-- The chain begins with the node that `tail_` names, and that is the last or is followed by
another. -/
theorem chain_cases : chain = [q.tail] ∧ q.head = q.tail ∨ ∃ b rest, chain = q.tail :: b :: rest := by
  have hfirst := h.first
  cases chain with
  | nil => cases hfirst
  | cons a chain =>
    obtain rfl : a = q.tail := Option.some.inj hfirst
    cases chain with
    | nil => exact .inl ⟨rfl, (Option.some.inj h.last).symm⟩
    | cons b rest => exact .inr ⟨b, rest, rfl⟩

/-- **The node that `tail_` names and is linked to another is followed by that in the chain.** -/
theorem exists_of_next {x : QueueNode} (hx : (q.nodes q.tail).next = some x) :
    ∃ rest, chain = q.tail :: x :: rest := by
  rcases h.chain_cases with ⟨-, hlast⟩ | ⟨b, rest, rfl⟩
  · -- The only node is also the last, which is linked to nothing.
    have hnone := h.unlinked
    rw [hlast, hx] at hnone
    cases hnone
  · have hxb := h.eq_of_next (b := b) (.inl ⟨rfl, rfl⟩) hx
    exact ⟨rest, by rw [hxb]⟩

theorem tail_mem : q.tail ∈ chain := mem_of_head? h.first

theorem head_mem : q.head ∈ chain := mem_of_getLast? h.last

/-- A node with one behind it is not the last. -/
theorem ne_head_of_adjacent {a b : QueueNode} (hab : Adjacent chain a b) : a ≠ q.head := by
  rintro rfl
  exact hab.ne_getLast h.nodup h.last

/-- What is true of a producer, where it is. -/
theorem producer_at {p : P} {point : ProducerPoint M} (hp : q.producers p = point) :
    q.ProducerFact chain point := hp ▸ h.producers p

/-- What is true of the consumer, where it is. -/
theorem consumer_at {point : ConsumerPoint M} (hc : q.consumer = point) :
    q.ConsumerFact chain point := hc ▸ h.consumer

end

/-- A producer that has still to link a node is not stopped by the consumer's going on. -/
theorem linked_of_ne (h : q.Chained chain) (hlink : ∀ tail prevHead, q.consumer ≠ .linkingStub tail prevHead)
    (hp : r.producers = q.producers) {a b : QueueNode} (hab : Adjacent chain a b) :
    (q.nodes a).next = some b ∨ (q.nodes a).next = none ∧ r.WillLink a b := by
  rcases h.linked a b hab with hb | ⟨hnone, hw | ⟨tail, hc, -⟩⟩
  · exact .inl hb
  · exact .inr ⟨hnone, .inl (by rwa [hp])⟩
  · exact absurd hc (hlink tail a)

variable {point : ConsumerPoint M}

/-- The consumer's own variables change, and what it knows of them is so. -/
theorem withConsumer (h : q.Chained chain) {returned : List (Option M)}
    (hlink : ∀ tail prevHead, q.consumer ≠ .linkingStub tail prevHead)
    (hfact : q.ConsumerFact chain point) : Chained { q with consumer := point, returned } chain :=
  { h with
    linked := fun a b hab => h.linked_of_ne hlink (by rfl) hab
    producers := h.producers
    consumer := hfact }

theorem storeNext_of_ne {x a : QueueNode} (ha : a ≠ x) (next : Option QueueNode) :
    (q.storeNext x next).nodes a = q.nodes a := update_of_ne ha _ _

/-- A store to `next_` leaves the messages. -/
theorem storeNext_data (x : QueueNode) (next : Option QueueNode) (a : QueueNode) :
    ((q.storeNext x next).nodes a).data = (q.nodes a).data := by
  by_cases ha : a = x
  · simp only [storeNext, write, ha, update_self]
  · rw [storeNext_of_ne ha]

/-- **A store to the `next_` of a node other than the last** keeps what is true of the messages. -/
theorem withNext (h : q.Chained chain) {x : QueueNode} (hx : q.head ≠ x) (hlive : q.isLive x = true)
    {next : Option QueueNode} {producers : P → ProducerPoint M}
    (hnode : ∀ p n, (producers p).node = some n → (q.producers p).node = some n)
    (hlinked : ∀ a b, Adjacent chain a b → ((q.storeNext x next).nodes a).next = some b ∨
      ((q.storeNext x next).nodes a).next = none ∧ WillLink { q with producers, consumer := point } a b)
    (hproducers : ∀ p, (q.storeNext x next).ProducerFact chain (producers p))
    (hconsumer : ConsumerFact { q.storeNext x next with producers } chain point) :
    Chained { q.storeNext x next with producers, consumer := point } chain where
  nodup := h.nodup
  first := h.first
  last := h.last
  linked := hlinked
  unlinked := (congrArg _ (storeNext_of_ne hx next)).trans h.unlinked
  full := by
    simp only [storeNext_data]
    exact h.full
  stub := (storeNext_data ..).trans h.stub
  messages := by
    simp only [storeNext_data]
    exact h.messages
  owned := fun p n hn => h.owned p n (hnode p n hn)
  owner := fun p p' n hn hn' => h.owner p p' n (hnode p n hn) (hnode p' n hn')
  producers := hproducers
  consumer := hconsumer
  unfreed := by simp [storeNext, write, h.unfreed, hlive]

/-! ## The producers' steps -/

/-- What is true of a producer stays so where its node, and the link of the node before it, stay. -/
theorem producerFact_of_nodes {point : ProducerPoint M} (hf : q.ProducerFact chain point)
    (hnode : ∀ n message, point = .filled n message → r.nodes (.pool n) = q.nodes (.pool n))
    (hprev : ∀ n prevHead, point = .exchanged n prevHead →
      (r.nodes prevHead).next = (q.nodes prevHead).next) : r.ProducerFact chain point := by
  cases point with
  | idle => trivial
  | allocated => exact hf
  | filled n message => exact ⟨hf.1, (hnode n message rfl).trans hf.2⟩
  | exchanged n prevHead => exact ⟨hf.1, (hprev n prevHead rfl).trans hf.2⟩

open Adjacent

/-- What is true of a producer stays so when a node that is not its own is appended to the chain. -/
theorem producerFact_concat {point : ProducerPoint M} (hf : q.ProducerFact chain point) {x : QueueNode}
    (hx : ∀ n, point.node = some n → .pool n ≠ x) : q.ProducerFact (chain ++ [x]) point := by
  have hnew : ∀ n, point.node = some n → .pool n ∉ chain → .pool n ∉ chain ++ [x] :=
    fun n hn hnotin hin => by
      rcases mem_append.mp hin with hin | hin
      · exact hnotin hin
      · exact hx n hn (mem_singleton.mp hin)
  cases point with
  | idle => trivial
  | allocated n => exact hnew n rfl hf
  | filled n => exact ⟨hnew n rfl hf.1, hf.2⟩
  | exchanged => exact ⟨append_singleton_iff.mpr (.inl hf.1), hf.2⟩

/-- The nodes whose link what is true of the consumer depends on. -/
def DependsOn : ConsumerPoint M → QueueNode → Prop
  | .taking tail _, a => a = tail
  | .exchangingStub _, a => a = .stub
  | .linkingStub _ prevHead, a => a = prevHead
  | .idle, _ | .pastStub _, _ | .freeing .., _ | .atLast _, _ | .clearingStub _, _ |
    .loadingAgain _, _ => False

/-- What is true of the consumer stays so where those links stay. -/
theorem consumerFact_of_nodes (hf : q.ConsumerFact chain point) (htail : r.tail = q.tail)
    (halloc : r.allocated = q.allocated)
    (hnode : ∀ p, (r.producers p).node = (q.producers p).node ∨ (r.producers p).node = none)
    (hnext : ∀ a, DependsOn point a → (r.nodes a).next = (q.nodes a).next) : r.ConsumerFact chain point := by
  cases point with
  | idle => trivial
  | pastStub | atLast | clearingStub | loadingAgain => exact ⟨htail.trans hf.1, hf.2⟩
  | taking tail => exact ⟨htail.trans hf.1, hf.2.1, (hnext tail rfl).trans hf.2.2⟩
  | freeing =>
    obtain ⟨n, rfl, hn, hnotin, hno⟩ := hf
    refine ⟨n, rfl, halloc ▸ hn, hnotin, fun p hp => ?_⟩
    rcases hnode p with hsame | hnone
    · exact hno p (hsame ▸ hp)
    · rw [hnone] at hp
      cases hp
  | exchangingStub => exact ⟨htail.trans hf.1, hf.2.1, hf.2.2.1, (hnext .stub rfl).trans hf.2.2.2⟩
  | linkingStub tail prevHead =>
    exact ⟨htail.trans hf.1, hf.2.1, hf.2.2.1, (hnext prevHead rfl).trans hf.2.2.2⟩

/-- Those nodes are in the chain, or the stub. -/
theorem mem_of_dependsOn (h : q.Chained chain) {a : QueueNode} (ha : DependsOn q.consumer a) :
    a ∈ chain ∨ a = .stub := by
  have hfact := h.consumer
  generalize q.consumer = point at hfact ha
  cases point with
  | taking tail =>
    obtain rfl : a = tail := ha
    exact .inl (hfact.1 ▸ h.tail_mem)
  | exchangingStub => exact .inr ha
  | linkingStub tail prevHead =>
    obtain rfl : a = prevHead := ha
    exact .inl hfact.2.2.1.mem.1
  | idle | pastStub | freeing | atLast | clearingStub | loadingAgain => exact ha.elim

section Producers

variable [DecidableEq P] {p : P}

/-- A producer that goes on with the same node: the nodes that the producers have stay. -/
theorem node_update {point : ProducerPoint M} (hsame : point.node = (q.producers p).node) :
    ∀ p', (update q.producers p point p').node = (q.producers p').node :=
  (forall_update_iff q.producers fun p' x => x.node = (q.producers p').node).mpr ⟨hsame, fun _ _ => rfl⟩

/-- A producer that has not exchanged `head_` has nothing to link. -/
theorem linked_update (h : q.Chained chain) (hp : ∀ n prevHead, q.producers p ≠ .exchanged n prevHead)
    (point : ProducerPoint M) {a b : QueueNode} (hab : Adjacent chain a b) : (q.nodes a).next = some b ∨
      (q.nodes a).next = none ∧ (q.setProducer p point).WillLink a b := by
  refine (h.linked a b hab).imp_right fun hw => ⟨hw.1, hw.2.imp_left ?_⟩
  rintro ⟨p', n, hp', rfl⟩
  have hne : p' ≠ p := fun heq => hp n a (heq ▸ hp')
  exact ⟨p', n, (update_of_ne hne _ _).trans hp', rfl⟩

/-- **A producer gets a node from the pool.** -/
theorem allocate (h : q.Chained chain) (hp : q.producers p = .idle) {n : Nat}
    (hn : q.allocated n = false) (message : M) :
    Chained ({ q with allocated := update q.allocated n true }.setProducer p (.allocated n message))
      chain := by
  -- The node is not in the chain and no thread has it, since those that are have been handed out.
  have hfresh : ∀ m, q.allocated m = true → m ≠ n := fun m hm heq => by
    rw [heq, hn] at hm
    cases hm
  have hout : .pool n ∉ chain := fun hin => hfresh n (h.full n hin).1 rfl
  have hkeeps : ∀ m, q.allocated m = true → update q.allocated n true m = true := fun m hm => by
    rw [update_of_ne (hfresh m hm), hm]
  have hothers : ∀ p' m, (update q.producers p (.allocated n message) p').node = some m →
      p' = p ∧ m = n ∨ p' ≠ p ∧ (q.producers p').node = some m := by
    intro p' m hm
    by_cases hpp : p' = p
    · rw [hpp, update_self] at hm
      exact .inl ⟨hpp, (Option.some.inj hm).symm⟩
    · rw [update_of_ne hpp] at hm
      exact .inr ⟨hpp, hm⟩
  refine { h with
      linked := fun a b hab => ?_
      full := fun m hm => ⟨hkeeps m (h.full m hm).1, (h.full m hm).2⟩
      owned := fun p' m hm => ?_
      owner := fun p₁ p₂ m h₁ h₂ => ?_
      producers := (forall_update_iff _ _).mpr ⟨hout, fun p' _ => h.producers p'⟩
      consumer := ?_ }
  · exact h.linked_update (by simp [hp]) _ hab
  · rcases hothers p' m hm with ⟨-, rfl⟩ | ⟨-, hm⟩
    · exact update_self ..
    · exact hkeeps m (h.owned p' m hm)
  · rcases hothers p₁ m h₁ with ⟨rfl, rfl⟩ | ⟨-, hm₁⟩
    · rcases hothers p₂ m h₂ with ⟨rfl, -⟩ | ⟨-, hm₂⟩
      · rfl
      · exact absurd rfl (hfresh m (h.owned p₂ m hm₂))
    · rcases hothers p₂ m h₂ with ⟨rfl, rfl⟩ | ⟨-, hm₂⟩
      · exact absurd rfl (hfresh m (h.owned p₁ m hm₁))
      · exact h.owner p₁ p₂ m hm₁ hm₂
  · have hfact := h.consumer
    cases hc : q.consumer with
    | freeing =>
      obtain ⟨m, rfl, hm, hnotin, hno⟩ := h.consumer_at hc
      refine ⟨m, rfl, hkeeps m hm, hnotin, fun p' hp' => ?_⟩
      rcases hothers p' m hp' with ⟨-, rfl⟩ | ⟨-, hm'⟩
      · exact hfresh m hm rfl
      · exact hno p' hm'
    | _ =>
      rw [hc] at hfact
      exact hfact

/-- **A producer writes its message to its node.** -/
theorem fill (h : q.Chained chain) {n : Nat} {message : M} (hp : q.producers p = .allocated n message) :
    Chained ((q.write (.pool n) { next := none, data := some message }).setProducer p (.filled n message))
      chain := by
  have hout : .pool n ∉ chain := h.producer_at hp
  have hnode : (q.producers p).node = some n := by rw [hp]; rfl
  have hsame : ∀ p', (update q.producers p (.filled n message) p').node = (q.producers p').node :=
    node_update hnode.symm
  have hnodes : ∀ a, a ≠ .pool n →
    update q.nodes (.pool n) { next := none, data := some message } a = q.nodes a :=
    fun a ha => update_of_ne ha _ _
  have hin : ∀ a ∈ chain, a ≠ .pool n := fun a ha heq => hout (heq ▸ ha)
  refine { h with
      linked := fun a b hab => ?_
      unlinked := ?_
      full := fun m hm => ?_
      stub := ?_
      messages := ?_
      owned := fun p' m hm => h.owned p' m (hsame p' ▸ hm)
      owner := fun p₁ p₂ m h₁ h₂ => h.owner p₁ p₂ m (hsame p₁ ▸ h₁) (hsame p₂ ▸ h₂)
      producers := (forall_update_iff _ _).mpr ⟨⟨hout, update_self ..⟩, fun p' hpp => ?_⟩
      consumer := ?_
      unfreed := ?_ }
  · simp only [setProducer, write, hnodes a (hin a hab.mem.1)]
    exact h.linked_update (by simp [hp]) _ hab
  · simp only [setProducer, write, hnodes q.head (hin _ h.head_mem)]
    exact h.unlinked
  · simp only [setProducer, write, hnodes _ (hin _ hm)]
    exact h.full m hm
  · simp only [setProducer, write, hnodes .stub nofun]
    exact h.stub
  · have hmap : chain.filterMap
      (fun a => ((q.write (.pool n) { next := none, data := some message }).nodes a).data) =
          chain.filterMap fun a => (q.nodes a).data :=
      filterMap_congr fun a ha => by simp only [write, hnodes a (hin a ha)]
    exact h.messages.trans (by rw [← hmap]; rfl)
  · refine producerFact_of_nodes (h.producers p') (fun m message' hm => ?_) fun m prevHead hm => ?_
    · refine hnodes _ fun heq => hpp (h.owner p' p n ?_ hnode)
      have hm : q.producers p' = .filled m message' := hm
      rw [hm, ← QueueNode.pool.inj heq]
      rfl
    · exact congrArg _ (hnodes _ (hin _ (h.producer_at hm).1.mem.1))
  · refine consumerFact_of_nodes h.consumer rfl rfl (fun p' => .inl (hsame p')) fun a ha => ?_
    refine congrArg _ (hnodes a ?_)
    rcases h.mem_of_dependsOn ha with hmem | rfl
    · exact hin a hmem
    · exact nofun
  · simp [setProducer, write, h.unfreed, isLive, h.owned p n hnode]

/-- **A producer exchanges `head_` for its node**, which becomes the last of the chain. -/
theorem exchange (h : q.Chained chain) {n : Nat} {message : M} (hp : q.producers p = .filled n message) :
    Chained ({ q with head := .pool n, exchanged := q.exchanged ++ [(p, message)] }.setProducer p
      (.exchanged n q.head)) (chain ++ [.pool n]) := by
  obtain ⟨hout, hcontent⟩ := h.producer_at hp
  have hnode : (q.producers p).node = some n := by rw [hp]; rfl
  have hsame : ∀ p', (update q.producers p (.exchanged n q.head) p').node =
      (q.producers p').node := node_update hnode.symm
  have hpair : Adjacent (chain ++ [.pool n]) q.head (.pool n) :=
    append_singleton_iff.mpr (.inr ⟨h.last, rfl⟩)
  refine
    { nodup := ?_
      first := ?_
      last := by simp [setProducer]
      linked := fun a b hab => ?_
      unlinked := by simp only [setProducer, hcontent]
      full := fun m hm => ?_
      stub := h.stub
      messages := ?_
      owned := fun p' m hm => h.owned p' m (hsame p' ▸ hm)
      owner := fun p₁ p₂ m h₁ h₂ => h.owner p₁ p₂ m (hsame p₁ ▸ h₁) (hsame p₂ ▸ h₂)
      producers := (forall_update_iff _ _).mpr ⟨⟨hpair, h.unlinked⟩, fun p' hpp => ?_⟩
      consumer := ?_
      unfreed := h.unfreed }
  · rw [← concat_eq_append]
    exact h.nodup.concat hout
  · rw [head?_append, h.first]
    rfl
  · rcases append_singleton_iff.mp hab with hab | ⟨hlast, rfl⟩
    · exact h.linked_update (by simp [hp]) _ hab
    · obtain rfl : q.head = a := Option.some.inj (h.last.symm.trans hlast)
      exact .inr ⟨h.unlinked, .inl ⟨p, n, update_self .., rfl⟩⟩
  · rcases mem_append.mp hm with hm | hm
    · exact h.full m hm
    · obtain rfl : m = n := QueueNode.pool.inj (mem_singleton.mp hm)
      refine ⟨h.owned p m hnode, ?_⟩
      simp only [setProducer, hcontent]
      rfl
  · simp only [setProducer, map_append, map_cons, map_nil, filterMap_append,
      filterMap_cons, filterMap_nil, hcontent, h.messages, append_assoc]
  · refine producerFact_concat (h.producers p') fun m hm heq => hpp (h.owner p' p n ?_ hnode)
    rw [← QueueNode.pool.inj heq]
    exact hm
  · -- the consumer works with other nodes than the one appended
    have hfact := h.consumer
    have hstub : .stub ∉ chain → .stub ∉ chain ++ [QueueNode.pool n] := fun hnotin hin => by
      rcases mem_append.mp hin with hin | hin
      · exact hnotin hin
      · cases mem_singleton.mp hin
    cases hc : q.consumer with
    | freeing =>
      obtain ⟨m, rfl, hm, hnotin, hno⟩ := h.consumer_at hc
      refine ⟨m, rfl, hm, fun hin => ?_, fun p' hp' => hno p' (hsame p' ▸ hp')⟩
      rcases mem_append.mp hin with hin | hin
      · exact hnotin hin
      · rw [QueueNode.pool.inj (mem_singleton.mp hin)] at hno
        exact hno p hnode
    | clearingStub =>
      rw [hc] at hfact
      exact ⟨hfact.1, hfact.2.1, hstub hfact.2.2⟩
    | exchangingStub =>
      rw [hc] at hfact
      exact ⟨hfact.1, hfact.2.1, hstub hfact.2.2.1, hfact.2.2.2⟩
    | linkingStub =>
      rw [hc] at hfact
      exact ⟨hfact.1, hfact.2.1, append_singleton_iff.mpr (.inl hfact.2.2.1), hfact.2.2.2⟩
    | idle | pastStub | taking | atLast | loadingAgain =>
      rw [hc] at hfact
      exact hfact

omit [DecidableEq P] in
/-- The neighbours that another thread has still to link are others. -/
theorem link_others (h : q.Chained chain) {p' : P} {n m : Nat} {prevHead prevHead' : QueueNode}
    (hp : q.producers p = .exchanged n prevHead) (hp' : q.producers p' = .exchanged m prevHead')
    (hpp : p' ≠ p) : prevHead' ≠ prevHead := by
  rintro rfl
  have hnm := QueueNode.pool.inj ((h.producer_at hp).1.right_unique h.nodup (h.producer_at hp').1)
  exact hpp (h.owner p' p n (by rw [hp', ← hnm]; rfl) (by rw [hp]; rfl))

/-- **A producer links its node.** -/
theorem link (h : q.Chained chain) {n : Nat} {prevHead : QueueNode}
    (hp : q.producers p = .exchanged n prevHead) :
    Chained ((q.storeNext prevHead (some (.pool n))).setProducer p .idle) chain := by
  obtain ⟨hpair, hnone⟩ := h.producer_at hp
  refine h.withNext (h.ne_head_of_adjacent hpair).symm (h.isLive_of_mem hpair.mem.1)
    ((forall_update_iff q.producers fun p' x => ∀ m, x.node = some m → (q.producers p').node = some m).mpr
      ⟨nofun, fun _ _ _ hm => hm⟩) (fun a b hab => ?_)
        ((forall_update_iff _ _).mpr ⟨trivial, fun p' hpp => ?_⟩) ?_
  · by_cases ha : a = prevHead
    · subst ha
      exact .inl (by simp [storeNext, write, hpair.right_unique h.nodup hab])
    · rw [storeNext_of_ne ha]
      refine (h.linked a b hab).imp_right fun hw => ⟨hw.1, hw.2.imp_left ?_⟩
      rintro ⟨p', m, hp', rfl⟩
      have hpp : p' ≠ p := fun heq => by
        rw [heq, hp] at hp'
        cases hp'
        exact ha rfl
      exact ⟨p', m, (update_of_ne hpp _ _).trans hp', rfl⟩
  · refine producerFact_of_nodes (h.producers p') (fun m message hm => ?_) fun m prevHead' hm => ?_
    · refine storeNext_of_ne (fun heq => (h.producer_at hm).1 ?_) _
      rw [heq]
      exact hpair.mem.1
    · exact congrArg _ (storeNext_of_ne (h.link_others hp hm hpp) _)
  · refine consumerFact_of_nodes h.consumer rfl rfl
      ((forall_update_iff q.producers fun p' x => x.node = (q.producers p').node ∨ x.node = none).mpr
        ⟨.inr rfl, fun _ _ => .inl rfl⟩) fun a ha => congrArg _ (storeNext_of_ne ?_ _)
    rintro rfl
    -- The consumer depends on no link that a producer has still to make.
    have ha : DependsOn q.consumer a := ha
    have hfact := h.consumer
    generalize q.consumer = point at hfact ha
    cases point with
    | taking tail =>
      obtain rfl : a = tail := ha
      rw [hfact.2.2] at hnone
      cases hnone
    | exchangingStub =>
      obtain rfl : a = .stub := ha
      exact hfact.2.2.1 hpair.mem.1
    | linkingStub tail prevHead' =>
      obtain rfl : a = prevHead' := ha
      cases hpair.right_unique h.nodup hfact.2.2.1
    | idle | pastStub | freeing | atLast | clearingStub | loadingAgain => exact ha

end Producers

/-! ## The consumer's steps -/

/-- **The first node of the chain is passed**, once it is linked to the next. -/
theorem advance {x : QueueNode} {rest : List QueueNode} (h : q.Chained (q.tail :: x :: rest))
    (hx : (q.nodes q.tail).next = some x) (hlink : ∀ tail prevHead, q.consumer ≠ .linkingStub tail prevHead)
    {nodes : QueueNode → QueueNode.Content M} {dequeued : List M}
    (hnodes : ∀ a, a ≠ q.tail → nodes a = q.nodes a) (hstub : (nodes .stub).data = none)
    (hmessages : q.exchanged.map Prod.snd = dequeued ++ (x :: rest).filterMap fun a => (q.nodes a).data)
    (hfact : ConsumerFact { q with nodes, tail := x, dequeued, consumer := point } (x :: rest) point) :
    Chained { q with nodes, tail := x, dequeued, consumer := point } (x :: rest) := by
  have hnodup := nodup_cons.mp h.nodup
  have hin : ∀ a ∈ x :: rest, nodes a = q.nodes a := fun a ha =>
    hnodes a fun heq => hnodup.1 (heq ▸ ha)
  have hrest : ∀ {a b}, Adjacent (x :: rest) a b → Adjacent (q.tail :: x :: rest) a b := .inr
  refine
    { nodup := hnodup.2
      first := rfl
      last := ?_
      linked := fun a b hab => ?_
      unlinked := ?_
      full := fun n hn => ?_
      stub := hstub
      messages := ?_
      owned := h.owned
      owner := h.owner
      producers := fun p => ?_
      consumer := hfact
      unfreed := h.unfreed }
  · have hlast := h.last
    rwa [getLast?_cons_cons] at hlast
  · simp only [hin a hab.mem.1]
    exact h.linked_of_ne hlink (by rfl) (hrest hab)
  · have hlast := h.last
    rw [getLast?_cons_cons] at hlast
    simp only [hin q.head (mem_of_getLast? hlast)]
    exact h.unlinked
  · simp only [hin _ hn]
    exact h.full n (mem_cons_of_mem _ hn)
  · rw [hmessages]
    exact congrArg _ (filterMap_congr fun a ha => by simp only [hin a ha])
  · have hp := h.producers p
    cases hpoint : q.producers p with
    | idle => trivial
    | allocated =>
      rw [hpoint] at hp
      exact fun hn => hp (mem_cons_of_mem _ hn)
    | filled n =>
      rw [hpoint] at hp
      have hsame := hnodes (.pool n) fun heq => hp.1 (heq ▸ mem_cons_self)
      exact ⟨fun hn => hp.1 (mem_cons_of_mem _ hn), hsame.trans hp.2⟩
    | exchanged n prevHead =>
      -- The node passed is linked, so it is not the one this producer has still to link.
      rw [hpoint] at hp
      have hne : prevHead ≠ q.tail := by
        rintro rfl
        have hnone := hp.2
        rw [hx] at hnone
        cases hnone
      refine ⟨?_, (congrArg QueueNode.Content.next (hnodes prevHead hne)).trans hp.2⟩
      rcases hp.1 with ⟨heq, -⟩ | hrest
      · exact absurd heq.symm hne
      · exact hrest

/-- No producer works with the first node of the chain once that is linked. -/
theorem node_ne_of_first {n : Nat} {rest : List QueueNode} (h : q.Chained (.pool n :: rest)) (p : P) :
    (q.producers p).node ≠ some n := by
  intro hn
  have hp := h.producers p
  generalize q.producers p = point at hn hp
  cases point with
  | idle => cases hn
  | allocated m =>
    obtain rfl : m = n := Option.some.inj hn
    exact hp mem_cons_self
  | filled m =>
    obtain rfl : m = n := Option.some.inj hn
    exact hp.1 mem_cons_self
  | exchanged m =>
    obtain rfl : m = n := Option.some.inj hn
    exact hp.1.ne_head h.nodup rfl

section

variable (h : q.Chained chain)
include h

variable {tail next : QueueNode}

/-- **The consumer takes the message of the first node.** -/
theorem take (hc : q.consumer = .taking tail next) :
    ∃ message rest, (q.nodes tail).data = some message ∧ Chained
      { q with
        nodes := update q.nodes tail { q.nodes tail with data := none }
        tail := next, dequeued := q.dequeued ++ [message], consumer := .freeing tail message } rest := by
  obtain ⟨rfl, hne, hx⟩ := h.consumer_at hc
  obtain ⟨rest, rfl⟩ := h.exists_of_next hx
  have hnodup := nodup_cons.mp h.nodup
  cases htail : q.tail with
  | stub => exact absurd htail hne
  | pool n =>
    obtain ⟨hn, hsome⟩ := h.full n (htail ▸ mem_cons_self)
    obtain ⟨message, hmessage⟩ := Option.isSome_iff_exists.mp hsome
    have hfirst := h
    rw [htail] at hfirst
    have hmessages := h.messages
    rw [filterMap_cons_some (htail ▸ hmessage)] at hmessages
    refine ⟨message, next :: rest, hmessage, ?_⟩
    rw [← htail]
    refine h.advance hx (by simp [hc]) (fun a ha => update_of_ne ha _ _) ?_ ?_ ?_
    · rw [update_of_ne (htail ▸ nofun)]
      exact h.stub
    · rw [hmessages, append_assoc, singleton_append]
    · exact ⟨n, htail, hn, hnodup.1, hfirst.node_ne_of_first⟩

/-- **The node is returned to the pool.** -/
theorem free {message : M} (hc : q.consumer = .freeing tail message) : ∃ n, tail = .pool n ∧
      Chained ({ q with allocated := update q.allocated n false }.returns (some message)) chain := by
  obtain ⟨n, rfl, hn, hnotin, hno⟩ := h.consumer_at hc
  refine ⟨n, rfl, ?_⟩
  refine { h with
      linked := fun a b hab => h.linked_of_ne (by simp [hc]) (by rfl) hab
      full := fun m hm => ?_
      owned := fun p m hm => ?_
      producers := h.producers
      consumer := trivial }
  · have hmn : m ≠ n := fun heq => hnotin (heq ▸ hm)
    simp only [returns, update_of_ne hmn]
    exact h.full m hm
  · have hmn : m ≠ n := fun heq => hno p (heq ▸ hm)
    simp only [returns, update_of_ne hmn]
    exact h.owned p m hm

/-- A chain whose first and last node are the same has no other. -/
theorem eq_singleton (heq : q.head = q.tail) : chain = [q.tail] := by
  rcases h.chain_cases with ⟨hchain, -⟩ | ⟨b, rest, rfl⟩
  · exact hchain
  · have hlast := h.last
    rw [getLast?_cons_cons, heq] at hlast
    exact absurd (mem_of_getLast? hlast) (nodup_cons.mp h.nodup).1

/-- **The stub is cleared** while it is not in the chain. -/
theorem clearStub (hc : q.consumer = .clearingStub tail) :
    Chained { q.storeNext .stub none with consumer := .exchangingStub tail } chain := by
  obtain ⟨htail, hne, hnotin⟩ := h.consumer_at hc
  have hin : ∀ a ∈ chain, a ≠ .stub := fun a ha heq => hnotin (heq ▸ ha)
  refine h.withNext (hin _ h.head_mem) rfl (fun _ _ hn => hn) (fun a b hab => ?_)
    (fun p => producerFact_of_nodes (h.producers p)
      (fun n _ _ => storeNext_of_ne (x := .stub) (a := .pool n) nofun none) fun n prevHead hp => ?_)
    ⟨htail, hne, hnotin, ?_⟩
  · rw [storeNext_of_ne (hin a hab.mem.1)]
    exact h.linked_of_ne (by simp [hc]) (by rfl) hab
  · exact congrArg _ (storeNext_of_ne (hin _ (h.producer_at hp).1.mem.1) _)
  · simp [storeNext, write]

/-- **The consumer exchanges `head_` for the stub**, which becomes the last of the chain. -/
theorem exchangeStub (hc : q.consumer = .exchangingStub tail) :
    Chained { q with head := .stub, consumer := .linkingStub tail q.head } (chain ++ [.stub]) := by
  obtain ⟨htail, hne, hnotin, hnone⟩ := h.consumer_at hc
  refine { h with
      nodup := ?_
      first := ?_
      last := by simp
      linked := fun a b hab => ?_
      unlinked := hnone
      full := fun n hn => ?_
      messages := ?_
      producers := fun p => producerFact_concat (h.producers p) nofun
      consumer := ⟨htail, hne, append_singleton_iff.mpr (.inr ⟨h.last, rfl⟩), h.unlinked⟩ }
  · rw [← concat_eq_append]
    exact h.nodup.concat hnotin
  · rw [head?_append, h.first]
    rfl
  · rcases append_singleton_iff.mp hab with hab | ⟨hlast, rfl⟩
    · exact h.linked_of_ne (by simp [hc]) (by rfl) hab
    · obtain rfl : q.head = a := Option.some.inj (h.last.symm.trans hlast)
      exact .inr ⟨h.unlinked, .inr ⟨tail, rfl, rfl⟩⟩
  · rcases mem_append.mp hn with hn | hn
    · exact h.full n hn
    · cases mem_singleton.mp hn
  · simp only [filterMap_append, filterMap_cons, filterMap_nil, h.stub, append_nil]
    exact h.messages

/-- **The consumer links the stub.** -/
theorem linkStub {prevHead : QueueNode} (hc : q.consumer = .linkingStub tail prevHead) :
    Chained { q.storeNext prevHead (some .stub) with consumer := .loadingAgain tail } chain := by
  obtain ⟨htail, hne, hpair, -⟩ := h.consumer_at hc
  refine h.withNext (h.ne_head_of_adjacent hpair).symm (h.isLive_of_mem hpair.mem.1) (fun _ _ hn => hn)
    (fun a b hab => ?_) (fun p => ?_) ⟨htail, hne⟩
  · by_cases ha : a = prevHead
    · subst ha
      exact .inl (by simp [storeNext, write, hpair.right_unique h.nodup hab])
    · rw [storeNext_of_ne ha]
      refine (h.linked a b hab).imp_right fun hw => ⟨hw.1, ?_⟩
      rcases hw.2 with hp | ⟨tail', hc', -⟩
      · exact .inl hp
      · rw [hc] at hc'
        cases hc'
        exact absurd rfl ha
  · refine producerFact_of_nodes (h.producers p) (fun n message hp => ?_) fun n prevHead' hp => ?_
    · refine storeNext_of_ne (fun heq => (h.producer_at hp).1 ?_) _
      rw [heq]
      exact hpair.mem.1
    · refine congrArg _ (storeNext_of_ne ?_ _)
      rintro rfl
      cases hpair.right_unique h.nodup (h.producer_at hp).1

/-- The consumer has loaded the link of the first node, which is not the stub. -/
theorem loaded (hne : q.tail ≠ .stub) (hlink : ∀ tail prevHead, q.consumer ≠ .linkingStub tail prevHead) :
    (q.loaded q.tail (q.nodes q.tail).next).Chained chain := by
  cases hx : (q.nodes q.tail).next with
  | none => exact h.withConsumer hlink ⟨rfl, hne⟩
  | some => exact h.withConsumer hlink ⟨rfl, hne, hx⟩

/-- **The consumer goes from the stub to the node behind it.** -/
theorem passStub (hc : q.consumer = .idle) (htail : q.tail = .stub) (hx : (q.nodes .stub).next = some next) :
    ∃ rest, Chained { q with tail := next, consumer := .pastStub next } rest := by
  rw [← htail] at hx
  obtain ⟨rest, rfl⟩ := h.exists_of_next hx
  have hnodup := nodup_cons.mp h.nodup
  have hne : next ≠ .stub := fun heq => hnodup.1 (by rw [htail, heq]; exact mem_cons_self)
  have hmessages := h.messages
  rw [filterMap_cons_none (by rw [htail]; exact h.stub)] at hmessages
  exact ⟨next :: rest, h.advance hx (by simp [hc]) (fun _ _ => rfl) h.stub hmessages ⟨rfl, hne⟩⟩

/-- **The consumer's next step**: there always is one, and the queue stays as it should be. -/
theorem consume : ∃ r, q.consume = some r ∧ ∃ chain', r.Chained chain' := by
  unfold MessageQueue.consume
  cases hc : q.consumer with
  | idle =>
    simp only
    split
    · rename_i htail
      cases hx : (q.nodes .stub).next with
      | none => exact ⟨_, rfl, chain, h.withConsumer (by simp [hc]) trivial⟩
      | some => exact ⟨_, rfl, h.passStub hc htail hx⟩
    · rename_i hne
      exact ⟨_, rfl, chain, h.loaded hne (by simp [hc])⟩
  | pastStub =>
    obtain ⟨rfl, hne⟩ := h.consumer_at hc
    exact ⟨_, rfl, chain, h.loaded hne (by simp [hc])⟩
  | taking =>
    obtain ⟨message, rest, hmessage, hr⟩ := h.take hc
    simp only [hmessage, Option.map_some]
    exact ⟨_, rfl, rest, hr⟩
  | freeing =>
    obtain ⟨n, rfl, hr⟩ := h.free hc
    exact ⟨_, rfl, chain, hr⟩
  | atLast tail =>
    obtain ⟨rfl, hne⟩ := h.consumer_at hc
    simp only
    split
    · rename_i heq
      refine ⟨_, rfl, chain, h.withConsumer (by simp [hc]) ⟨rfl, hne, ?_⟩⟩
      rw [h.eq_singleton heq]
      exact fun hin => hne (mem_singleton.mp hin).symm
    · exact ⟨_, rfl, chain, h.withConsumer (by simp [hc]) trivial⟩
  | clearingStub => exact ⟨_, rfl, chain, h.clearStub hc⟩
  | exchangingStub => exact ⟨_, rfl, _, h.exchangeStub hc⟩
  | linkingStub => exact ⟨_, rfl, chain, h.linkStub hc⟩
  | loadingAgain tail =>
    obtain ⟨rfl, hne⟩ := h.consumer_at hc
    simp only
    split
    · rename_i next hx
      exact ⟨_, rfl, chain, h.withConsumer (by simp [hc]) ⟨rfl, hne, hx⟩⟩
    · exact ⟨_, rfl, chain, h.withConsumer (by simp [hc]) trivial⟩

/-- **Every step of every thread keeps it.** -/
theorem step [DecidableEq P] {action : QueueAction P M} (hr : step q action = some r) :
    ∃ chain', r.Chained chain' := by
  cases action with
  | allocate p message n =>
    cases hp : q.producers p with
    | idle =>
      cases hn : q.allocated n with
      | true => simp [MessageQueue.step, hp, hn] at hr
      | false =>
        simp only [MessageQueue.step, hp, hn, Bool.false_eq_true, if_false, Option.some.injEq] at hr
        exact ⟨chain, hr ▸ h.allocate hp hn message⟩
    | allocated | filled | exchanged => simp [MessageQueue.step, hp] at hr
  | fill p =>
    cases hp : q.producers p with
    | allocated =>
      simp only [MessageQueue.step, hp, Option.some.injEq] at hr
      exact ⟨chain, hr ▸ h.fill hp⟩
    | idle | filled | exchanged => simp [MessageQueue.step, hp] at hr
  | exchange p =>
    cases hp : q.producers p with
    | filled =>
      simp only [MessageQueue.step, hp, Option.some.injEq] at hr
      exact ⟨_, hr ▸ h.exchange hp⟩
    | idle | allocated | exchanged => simp [MessageQueue.step, hp] at hr
  | link p =>
    cases hp : q.producers p with
    | exchanged =>
      simp only [MessageQueue.step, hp, Option.some.injEq] at hr
      exact ⟨chain, hr ▸ h.link hp⟩
    | idle | allocated | filled => simp [MessageQueue.step, hp] at hr
  | consume =>
    obtain ⟨r', hr', chain', hchained⟩ := h.consume
    have hsame : r' = r := Option.some.inj (hr'.symm.trans hr)
    exact ⟨chain', hsame ▸ hchained⟩

end

theorem fresh : (fresh : MessageQueue P M).Chained [.stub] where
  nodup := nodup_singleton _
  first := rfl
  last := rfl
  linked := fun _ _ hab => hab.elim
  unlinked := rfl
  full := fun n hn => by cases mem_singleton.mp hn
  stub := rfl
  messages := rfl
  owned := nofun
  owner := nofun
  producers := fun _ => trivial
  consumer := trivial
  unfreed := rfl

end Chained

/-! ## With no enqueue in progress -/

/-- No producer is in `enqueue`, and the consumer is not in `dequeue`. -/
def IsQuiet (q : MessageQueue P M) : Prop := (∀ p, q.producers p = .idle) ∧ q.consumer = .idle

/-- Every message enqueued has been dequeued. -/
def AllDequeued (q : MessageQueue P M) : Prop := q.dequeued = q.exchanged.map Prod.snd

namespace Chained

/-- The messages that have not been taken are those of the nodes in the chain: there is none exactly
when only the stub is left. -/
theorem allDequeued_iff (h : q.Chained chain) : q.AllDequeued ↔ chain = [.stub] := by
  unfold AllDequeued
  rw [h.messages, self_eq_append_right, filterMap_eq_nil_iff]
  constructor
  · intro hnone
    -- A node from the pool holds a message.
    have hstub : ∀ a ∈ chain, a = .stub := fun a ha => by
      cases a with
      | stub => rfl
      | pool n =>
        have hsome := (h.full n ha).2
        rw [hnone _ ha] at hsome
        cases hsome
    have htail := hstub _ h.tail_mem
    rcases h.chain_cases with ⟨hchain, -⟩ | ⟨b, rest, rfl⟩
    · rw [hchain, htail]
    · have hnodup := h.nodup
      have hb := hstub b (mem_cons_of_mem _ mem_cons_self)
      rw [htail, hb, nodup_cons] at hnodup
      exact absurd mem_cons_self hnodup.1
  · intro hchain a ha
    rw [hchain] at ha
    rw [mem_singleton.mp ha]
    exact h.stub

/-- With no enqueue in progress, a node that is linked to nothing is the last. -/
theorem eq_singleton_of_idle (h : q.Chained chain) (hp : ∀ p, q.producers p = .idle)
    (hlink : ∀ tail prevHead, q.consumer ≠ .linkingStub tail prevHead)
    (hnone : (q.nodes q.tail).next = none) : chain = [q.tail] := by
  rcases h.chain_cases with ⟨hchain, -⟩ | ⟨b, rest, rfl⟩
  · exact hchain
  rcases h.linked q.tail b (.inl ⟨rfl, rfl⟩) with hsome | ⟨-, ⟨p, n, hpoint, -⟩ | ⟨tail, hc, -⟩⟩
  · rw [hnone] at hsome
    cases hsome
  · rw [hp p] at hpoint
    cases hpoint
  · exact absurd hc (hlink tail q.tail)

/-- **`empty` says whether every message has been dequeued.** -/
theorem empty_iff (h : q.Chained chain) (hq : q.IsQuiet) : q.empty = true ↔ q.AllDequeued := by
  rw [h.allDequeued_iff]
  unfold empty
  rw [Bool.and_eq_true, decide_eq_true_eq, Option.isNone_iff_eq_none]
  constructor
  · rintro ⟨htail, hnone⟩
    rw [h.eq_singleton_of_idle hq.1 (by simp [hq.2]) (htail ▸ hnone), htail]
  · intro hchain
    have hfirst := h.first
    have hlast := h.last
    rw [hchain] at hfirst hlast
    have hhead : q.head = .stub := (Option.some.inj hlast).symm
    exact ⟨(Option.some.inj hfirst).symm, hhead ▸ h.unlinked⟩

/-- A step of a call that goes on. -/
theorem dequeueAlone_of_ne (hr : q.consume = some r) (hne : r.consumer ≠ .idle) (steps : Nat) :
    dequeueAlone (steps + 1) q = dequeueAlone steps r := by
  rw [dequeueAlone, hr, Option.bind_some]
  cases hc : r.consumer with
  | idle => exact absurd hc hne
  | pastStub | taking | freeing | atLast | clearingStub | exchangingStub | linkingStub | loadingAgain => rfl

/-- The last step of a call. -/
theorem dequeueAlone_of_returns {result : Option M} (hr : q.consume = some (r.returns result)) (steps : Nat) :
    dequeueAlone (steps + 1) q = some (r.returns result, result) := by
  rw [dequeueAlone, hr, Option.bind_some]
  simp [returns]

variable {tail next : QueueNode}

/-- A consumer that takes a message returns it. -/
theorem dequeueAlone_taking (h : q.Chained chain) (hc : q.consumer = .taking tail next) (steps : Nat) :
    ∃ r message, dequeueAlone (steps + 2) q = some (r, some message) := by
  obtain ⟨message, rest, hmessage, hr⟩ := h.take hc
  have htake : q.consume = some { q with
        nodes := update q.nodes tail { q.nodes tail with data := none }
        tail := next, dequeued := q.dequeued ++ [message], consumer := .freeing tail message } := by
    simp only [MessageQueue.consume, hc, hmessage, Option.map_some]
  obtain ⟨n, rfl, -⟩ := hr.free rfl
  rw [dequeueAlone_of_ne htake nofun]
  exact ⟨_, message, dequeueAlone_of_returns rfl steps⟩

/-- A consumer that loads a link takes a message. -/
theorem dequeueAlone_loadingAgain (h : q.Chained chain) (hc : q.consumer = .loadingAgain tail)
    (hx : (q.nodes tail).next = some next) (steps : Nat) :
    ∃ r message, dequeueAlone (steps + 3) q = some (r, some message) := by
  have hfact := h.consumer_at hc
  have hstep : q.consume = some { q with consumer := .taking tail next } := by
    simp only [MessageQueue.consume, hc, hx]
  have hr : Chained { q with consumer := .taking tail next } chain :=
    h.withConsumer (by simp [hc]) ⟨hfact.1, hfact.2, hx⟩
  rw [dequeueAlone_of_ne hstep nofun]
  exact hr.dequeueAlone_taking rfl steps

/-- A consumer that links the stub behind the node it takes from takes its message. -/
theorem dequeueAlone_linkingStub (h : q.Chained chain) (hc : q.consumer = .linkingStub tail tail)
    (steps : Nat) : ∃ r message, dequeueAlone (steps + 4) q = some (r, some message) := by
  have hstep : q.consume = some { q.storeNext tail (some .stub) with consumer := .loadingAgain tail } := by
    simp only [MessageQueue.consume, hc]
  have hx : ((q.storeNext tail (some .stub)).nodes tail).next = some .stub := by
    simp only [storeNext, write, update_self]
  rw [dequeueAlone_of_ne hstep nofun]
  exact (h.linkStub hc).dequeueAlone_loadingAgain rfl hx steps

/-- With no enqueue in progress, a consumer that finds one node left appends the stub and takes the
message of that node. -/
theorem dequeueAlone_atLast (h : q.Chained [q.tail]) (hc : q.consumer = .atLast q.tail) (steps : Nat) :
    ∃ r message, dequeueAlone (steps + 7) q = some (r, some message) := by
  have hhead : q.head = q.tail := (Option.some.inj h.last).symm
  have hne : q.tail ≠ .stub := (h.consumer_at hc).2
  -- `enqueue_stub_`: the stub is cleared and `head_` exchanged for it, while no other thread goes
  -- on.
  have hcleared : Chained { q with consumer := .clearingStub q.tail } [q.tail] :=
    h.withConsumer (by simp [hc]) ⟨rfl, hne, fun hin => hne (mem_singleton.mp hin).symm⟩
  have hexchanged := (hcleared.clearStub rfl).exchangeStub rfl
  have hstep₁ : q.consume = some { q with consumer := .clearingStub q.tail } := by
    simp only [MessageQueue.consume, hc, hhead, if_true]
  have hstep₂ : MessageQueue.consume { q with consumer := .clearingStub q.tail } =
      some { q.storeNext .stub none with consumer := .exchangingStub q.tail } := rfl
  have hstep₃ : MessageQueue.consume { q.storeNext .stub none with consumer := .exchangingStub q.tail } =
      some { q.storeNext .stub none with head := .stub, consumer := .linkingStub q.tail q.head } := rfl
  rw [dequeueAlone_of_ne hstep₁ nofun, dequeueAlone_of_ne hstep₂ nofun, dequeueAlone_of_ne hstep₃ nofun]
  have hpoint : ConsumerPoint.linkingStub q.tail q.head = (.linkingStub q.tail q.tail : ConsumerPoint M) := by
    rw [hhead]
  exact dequeueAlone_linkingStub hexchanged hpoint steps

/-- With no enqueue in progress, a consumer that has loaded the link of a node takes its message. -/
theorem dequeueAlone_loaded (h : q.Chained chain) (hp : ∀ p, q.producers p = .idle) (hne : q.tail ≠ .stub)
    (hlink : ∀ tail prevHead, q.consumer ≠ .linkingStub tail prevHead) (steps : Nat) :
    ∃ r message, dequeueAlone (steps + 7) (q.loaded q.tail (q.nodes q.tail).next) =
      some (r, some message) := by
  cases hx : (q.nodes q.tail).next with
  | some next =>
    have hr : Chained { q with consumer := .taking q.tail next } chain :=
      h.withConsumer hlink ⟨rfl, hne, hx⟩
    exact hr.dequeueAlone_taking rfl (steps + 5)
  | none =>
    have hr : Chained { q with consumer := .atLast q.tail } [q.tail] :=
      h.eq_singleton_of_idle hp hlink hx ▸ h.withConsumer hlink ⟨rfl, hne⟩
    exact hr.dequeueAlone_atLast rfl steps

/-- **With no enqueue in progress, `dequeue` returns a message unless every message has been
dequeued.** -/
theorem dequeueAlone_of_quiet (h : q.Chained chain) (hq : q.IsQuiet) :
    ∃ r result, dequeueAlone 9 q = some (r, result) ∧ (result = none ↔ q.AllDequeued) := by
  obtain ⟨hp, hc⟩ := hq
  have hlink : ∀ tail prevHead, q.consumer ≠ .linkingStub tail prevHead := by simp [hc]
  -- A message is returned only if one is left.
  have hleft : ∀ {r : MessageQueue P M} {message : M}, dequeueAlone 9 q = some (r, some message) →
      chain ≠ [.stub] → ∃ r result, dequeueAlone 9 q = some (r, result) ∧ (result = none ↔ q.AllDequeued) :=
    fun hr hchain => ⟨_, _, hr, by simpa [h.allDequeued_iff] using hchain⟩
  by_cases htail : q.tail = .stub
  · cases hx : (q.nodes .stub).next with
    | none =>
      have hall : q.AllDequeued := by
        rw [h.allDequeued_iff, h.eq_singleton_of_idle hp hlink (htail ▸ hx), htail]
      have hstep : q.consume = some (q.returns none) := by
        simp only [MessageQueue.consume, hc, htail, if_true, hx]
      exact ⟨_, none, dequeueAlone_of_returns hstep 8, by simp [hall]⟩
    | some next =>
      have hstep : q.consume = some { q with tail := next, consumer := .pastStub next } := by
        simp only [MessageQueue.consume, hc, htail, if_true, hx]
      obtain ⟨rest, hr⟩ := h.passStub hc htail hx
      have hne : next ≠ .stub := hr.consumer.2
      have hstep' : MessageQueue.consume { q with tail := next, consumer := .pastStub next } =
          some (MessageQueue.loaded { q with tail := next, consumer := .pastStub next }
            next (q.nodes next).next) := rfl
      have hpoint : (MessageQueue.loaded { q with tail := next, consumer := .pastStub next } next
          (q.nodes next).next).consumer ≠ .idle := by
        cases (q.nodes next).next <;> nofun
      obtain ⟨u, message, hu⟩ := hr.dequeueAlone_loaded hp hne nofun 0
      refine hleft (?_ : dequeueAlone 9 q = some (u, some message)) ?_
      · rw [dequeueAlone_of_ne hstep nofun, dequeueAlone_of_ne hstep' hpoint]
        exact hu
      · rintro rfl
        obtain ⟨rest', hchain⟩ := h.exists_of_next (htail.symm ▸ hx)
        simp at hchain
  · have hstep : q.consume = some (q.loaded q.tail (q.nodes q.tail).next) := by
      simp only [MessageQueue.consume, hc, htail, if_false]
    have hpoint : (q.loaded q.tail (q.nodes q.tail).next).consumer ≠ .idle := by
      cases (q.nodes q.tail).next <;> nofun
    obtain ⟨u, message, hu⟩ := h.dequeueAlone_loaded hp htail hlink 1
    refine hleft (?_ : dequeueAlone 9 q = some (u, some message)) ?_
    · rw [dequeueAlone_of_ne hstep hpoint]
      exact hu
    · rintro rfl
      exact htail (Option.some.inj h.first).symm

end Chained

/-! ## What `dequeue` returns -/

/-- **What `dequeue` has returned, and then what it has in hand, is what was taken.** -/
def HandsBack (q : MessageQueue P M) : Prop := q.returned.reduceOption ++ q.consumer.inHand = q.dequeued

section HandsBack

/-- What a step of the consumer does to the results: nothing until `dequeue` returns, and then it
adds one. -/
structure ConsumerStep (q r : MessageQueue P M) : Prop where
  exchanged : r.exchanged = q.exchanged
  handsBack : q.HandsBack → r.HandsBack
  returned : r.consumer ≠ .idle → r.returned = q.returned
  returns : r.consumer = .idle → ∃ result, r.returned = q.returned ++ [result]

/-- The consumer goes on with nothing in hand. -/
theorem consumerStep_of_empty {q r : MessageQueue P M} (hexchanged : r.exchanged = q.exchanged)
    (hdequeued : r.dequeued = q.dequeued) (hreturned : r.returned = q.returned)
    (hq : q.consumer.inHand = []) (hr : r.consumer.inHand = []) (hidle : r.consumer ≠ .idle) :
    ConsumerStep q r where
  exchanged := hexchanged
  handsBack h := by rwa [HandsBack, hreturned, hr, hdequeued, ← hq]
  returned _ := hreturned
  returns h := absurd h hidle

/-- `dequeue` returns nothing. -/
theorem consumerStep_returns_none {q : MessageQueue P M} (hq : q.consumer.inHand = []) :
    ConsumerStep q (q.returns none) where
  exchanged := rfl
  handsBack h := by
    rw [HandsBack, hq, append_nil] at h
    rw [HandsBack, MessageQueue.returns, ← h]
    simp [reduceOption_append, ConsumerPoint.inHand]
  returned h := absurd rfl h
  returns _ := ⟨none, rfl⟩

theorem consumerStep (hr : q.consume = some r) : ConsumerStep q r := by
  have hloaded : ∀ {tail : QueueNode} {next : Option QueueNode}, q.consumer.inHand = [] →
      ConsumerStep q (q.loaded tail next) := by
    intro tail next hq
    cases next <;> exact consumerStep_of_empty rfl rfl rfl hq rfl nofun
  unfold MessageQueue.consume at hr
  cases hc : q.consumer with
  | idle =>
    have hempty : q.consumer.inHand = [] := by rw [hc]; rfl
    simp only [hc] at hr
    split at hr
    · split at hr <;> cases hr
      · exact consumerStep_returns_none hempty
      · exact consumerStep_of_empty rfl rfl rfl hempty rfl nofun
    · cases hr
      exact hloaded hempty
  | taking tail next =>
    simp only [hc] at hr
    obtain ⟨message, -, rfl⟩ := Option.map_eq_some_iff.mp hr
    refine ⟨rfl, fun h => ?_, fun _ => rfl, nofun⟩
    rw [HandsBack, hc] at h
    rw [HandsBack, ← h]
    simp [ConsumerPoint.inHand]
  | freeing tail message =>
    simp only [hc] at hr
    split at hr <;> cases hr
    refine ⟨rfl, fun h => ?_, fun h => absurd rfl h, fun _ => ⟨some message, rfl⟩⟩
    rw [HandsBack, hc] at h
    rw [HandsBack, MessageQueue.returns, ← h]
    simp [reduceOption_append, ConsumerPoint.inHand]
  | pastStub | atLast | clearingStub | exchangingStub | linkingStub | loadingAgain =>
    have hempty : q.consumer.inHand = [] := by rw [hc]; rfl
    simp only [hc] at hr
    repeat' split at hr
    all_goals cases hr
    all_goals first
      | exact hloaded hempty
      | exact consumerStep_returns_none hempty
      | exact consumerStep_of_empty rfl rfl rfl hempty rfl nofun

/-- **What a call of `dequeue` returns is what it takes**, when no other thread takes a step. -/
theorem Chained.dequeueAlone_spec {steps : Nat} {result : Option M} (h : q.Chained chain) (hq : q.HandsBack)
    (hr : dequeueAlone steps q = some (r, result)) :
    (∃ chain', r.Chained chain') ∧ r.HandsBack ∧ r.consumer = .idle ∧ r.exchanged = q.exchanged ∧
      r.returned = q.returned ++ [result] := by
  induction steps generalizing q chain with
  | zero => cases hr
  | succ steps ih =>
    rw [dequeueAlone] at hr
    obtain ⟨t, ht, hr⟩ := Option.bind_eq_some_iff.mp hr
    obtain ⟨t', ht', chain', hchained⟩ := h.consume
    obtain rfl : t' = t := Option.some.inj (ht'.symm.trans ht)
    have hstep := consumerStep ht
    split at hr
    · rename_i hidle
      obtain ⟨result', hlast, hpair⟩ := Option.map_eq_some_iff.mp hr
      cases hpair
      obtain ⟨result', hreturned⟩ := hstep.returns hidle
      rw [hreturned, getLast?_concat, Option.some.injEq] at hlast
      exact ⟨⟨chain', hchained⟩, hstep.handsBack hq, hidle, hstep.exchanged, hlast ▸ hreturned⟩
    · rename_i hgoes
      obtain ⟨hc, hhands, hidle, hexchanged, hreturned⟩ := ih hchained (hstep.handsBack hq) hr
      exact ⟨hc, hhands, hidle, hexchanged.trans hstep.exchanged, (hstep.returned hgoes) ▸ hreturned⟩

/-- **With no enqueue in progress, `dequeue` returns the next message**, the first of those not yet
taken. -/
theorem Chained.dequeueAlone_next (h : q.Chained chain) (hhands : q.HandsBack) (hq : q.IsQuiet) :
    ∃ r result, dequeueAlone 9 q = some (r, result) ∧
      result = (q.exchanged.map Prod.snd)[q.dequeued.length]? ∧ (result = none ↔ q.AllDequeued) := by
  obtain ⟨r, result, hr, hnone⟩ := h.dequeueAlone_of_quiet hq
  obtain ⟨⟨chain', hr'⟩, hback, hidle, hexchanged, hreturned⟩ := h.dequeueAlone_spec hhands hr
  refine ⟨r, result, hr, ?_, hnone⟩
  rw [HandsBack, hq.2] at hhands
  rw [HandsBack, hidle, hreturned, reduceOption_append] at hback
  simp only [ConsumerPoint.inHand, append_nil] at hhands hback
  cases result with
  | none => rw [← hnone.mp rfl, getElem?_eq_none (Nat.le_refl _)]
  | some message =>
    rw [← hexchanged, hr'.messages, ← hback, hhands]
    simp [reduceOption]

end HandsBack

/-! ## The queue along every run -/

section Runs

variable [DecidableEq P]

/-- What has been returned and is in hand was taken, along every run. -/
theorem handsBack_run {actions : List (QueueAction P M)} (hr : step.run fresh actions = some q) :
    q.HandsBack := by
  have hkept : (step : Machine (MessageQueue P M) (QueueAction P M)).Invariant HandsBack := by
    intro q action r h hr
    cases action with
    | consume => exact (consumerStep hr).handsBack h
    | allocate | fill | exchange | link =>
      -- the steps of the producers change none of it
      simp only [MessageQueue.step] at hr
      repeat' split at hr
      all_goals cases hr
      all_goals exact h
  exact hkept.run (show HandsBack fresh from rfl) hr

theorem chained_run {actions : List (QueueAction P M)} (hr : step.run fresh actions = some q) :
    ∃ chain, q.Chained chain := by
  have hkept : (step : Machine (MessageQueue P M) (QueueAction P M)).Invariant
      fun q => ∃ chain, q.Chained chain := fun q action r ⟨_, h⟩ hr => h.step hr
  exact hkept.run ⟨_, Chained.fresh⟩ hr

/-- **The queue is a FIFO that loses nothing.** For any producers and every interleaving of the
threads' steps: the messages taken are the first of those for which `head_` was exchanged, in that
order, and `dequeue` has returned them in that order, but for one that it may have in hand; no node
has been written to after it was returned to the pool; the consumer can go on; and with no enqueue
in progress `dequeue` returns the first message that has not been taken, and nothing exactly when
every message has been dequeued, which is what `empty` says. -/
theorem fifo {actions : List (QueueAction P M)} (hr : step.run fresh actions = some q) :
    q.dequeued <+: q.exchanged.map Prod.snd ∧ q.returned.reduceOption ++ q.consumer.inHand = q.dequeued ∧
      q.wroteFreed = false ∧ q.consume.isSome = true ∧ (q.IsQuiet →
        (∃ r result, dequeueAlone 9 q = some (r, result) ∧
          result = (q.exchanged.map Prod.snd)[q.dequeued.length]? ∧ (result = none ↔ q.AllDequeued)) ∧
        (q.empty = true ↔ q.AllDequeued)) := by
  obtain ⟨chain, h⟩ := chained_run hr
  have hhands := handsBack_run hr
  obtain ⟨r, hstep, -⟩ := h.consume
  refine ⟨⟨_, h.messages.symm⟩, hhands, h.unfreed, by rw [hstep]; rfl, fun hq => ?_⟩
  exact ⟨h.dequeueAlone_next hhands hq, h.empty_iff hq⟩

/-- Two producers overtake each other; the first message is returned while the second is being
linked. -/
def twoProducers : List (QueueAction Bool Nat) :=
  [.allocate false 10 0, .allocate true 20 1, .fill true, .exchange true, .fill false, .exchange false,
    .link true, .consume, .consume, .consume, .link false, .consume, .consume, .consume, .consume]

theorem fifo_two :
    ∃ q, step.run (fresh : MessageQueue Bool Nat) twoProducers = some q ∧
      q.exchanged = [(true, 20), (false, 10)] ∧
      q.dequeued = [20] ∧ q.allocated 1 = false ∧ q.returned.reduceOption ++ q.consumer.inHand = [20] := by
  obtain ⟨q, hrun, hexchanged, hdequeued, hfreed⟩ := Machine.exists_run_of_any step
    (fresh : MessageQueue Bool Nat) twoProducers
    (fun q => q.exchanged = [(true, 20), (false, 10)] ∧ q.dequeued = [20] ∧ q.allocated 1 = false)
    (by decide)
  exact ⟨q, hrun, hexchanged, hdequeued, hfreed, (fifo hrun).2.1.trans hdequeued⟩

end Runs

end MessageQueue

end PubsubVenue
