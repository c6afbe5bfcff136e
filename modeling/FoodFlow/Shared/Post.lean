import FoodFlow.Shared.Mail

/-!
# Messages between services

Several services, each with its outbox and its ledger, and the messages that their relays have
sent.  What a transaction of a service does to its mail is said by `Mail.Adds`, what it does to
that of all by `Post.Writes`; `Post.Relays` is a step of a relay.

* `Post.Event` : the events written so far;
* `Post.Sound` : every event has the shape that its topic promises, no two events have the same
  id, and only events are in the ledgers and among the messages;
* `Post.Sound.writes`, `Post.Sound.relays` : the steps keep this, as long as the id of every new
  event is new.
-/

namespace FoodFlow

/-- A record of a Kafka topic. -/
structure Message where
  topic : EventType
  value : Envelope
  deriving DecidableEq, Repr

/-! ### The mail of one service -/

namespace Mail

/-- `m'` has all that `m` has, the new rows `new` and the new entries `done`. -/
structure Adds (new : Option OutboxRow) (done : Option UUID) (m m' : Mail) : Prop where
  outbox : ∀ x, x ∈ m'.outbox.rows ↔ x ∈ m.outbox.rows ∨ x ∈ new
  processed : ∀ e, e ∈ m'.processed ↔ e ∈ m.processed ∨ e ∈ done

variable {m m₁ m' : Mail} {x : OutboxRow} {e : UUID} {new : Option OutboxRow} {done : Option UUID}

theorem adds_refl (m : Mail) : Adds none none m m :=
  ⟨fun x => by simp, fun e => by simp⟩

theorem adds_addOutbox (h : m.outbox.get? x.id = none) :
    Adds (some x) none m (apply (.addOutbox x) m) := by
  refine ⟨fun y => ?_, fun e => by simp⟩
  rw [apply_addOutbox_outbox, Table.rows_insert h]
  simp [eq_comm]

theorem Adds.addProcessed (e : UUID) (h : Adds new none m m') :
    Adds new (some e) m (apply (.addProcessed e) m') := by
  refine ⟨fun y => by simpa using h.outbox y, fun e' => ?_⟩
  have := h.processed e'
  simp only [apply_addProcessed_processed, List.mem_cons, this]
  simp [eq_comm, or_comm]

/-- The rows after one of them has been marked. -/
theorem mem_rows_publish {id : UUID} {now : Time} :
    x ∈ (publish id now m).outbox.rows ↔
      ∃ y ∈ m.outbox.rows, (if y.id = id then { y with publishedAt := some now } else y) = x := by
  change x ∈ (m.outbox.update (·.id = id) fun r => { r with publishedAt := some now }).rows ↔ _
  rw [Table.mem_rows_update]
  simp only [decide_eq_true_eq]

/-- `m'` is `m`, but that one row may have been marked as published. -/
def Marked (m m' : Mail) : Prop := m' = m ∨ ∃ id now, m' = m.publish id now

namespace Marked

/-- A row of the mail that has been marked is one from before, up to the mark. -/
theorem of_mem (h : Marked m m') (hx : x ∈ m'.outbox.rows) :
    ∃ y ∈ m.outbox.rows, x.topic = y.topic ∧ x.key = y.key ∧ x.payload = y.payload := by
  rcases h with rfl | ⟨id, now, rfl⟩
  · exact ⟨x, hx, rfl, rfl, rfl⟩
  · obtain ⟨y, hy, rfl⟩ := mem_rows_publish.1 hx
    exact ⟨y, hy, by split_ifs <;> exact ⟨rfl, rfl, rfl⟩⟩

/-- A row from before is still there, up to the mark. -/
theorem mem (h : Marked m m') (hx : x ∈ m.outbox.rows) :
    ∃ y ∈ m'.outbox.rows, y.topic = x.topic ∧ y.key = x.key ∧ y.payload = x.payload := by
  rcases h with rfl | ⟨id, now, rfl⟩
  · exact ⟨x, hx, rfl, rfl, rfl⟩
  · exact ⟨_, mem_rows_publish.2 ⟨x, hx, rfl⟩, by split_ifs <;> exact ⟨rfl, rfl, rfl⟩⟩

theorem processed (h : Marked m m') : m'.processed = m.processed := by
  rcases h with rfl | ⟨id, now, rfl⟩ <;> rfl

/-- Counting rows without looking at the mark. -/
theorem countP (h : Marked m m') (φ : OutboxRow → Bool)
    (hφ : ∀ r now, φ { r with publishedAt := some now } = φ r) :
    m'.outbox.rows.countP φ = m.outbox.rows.countP φ := by
  rcases h with rfl | ⟨id, now, rfl⟩
  · rfl
  · show (m.outbox.rows.map fun r =>
      if decide (r.id = id) then { r with publishedAt := some now } else r).countP φ = _
    rw [List.countP_map]
    congr 1
    funext r
    simp only [Function.comp]
    split_ifs
    · exact hφ r now
    · rfl

end Marked

end Mail

/-! ### The mail of all services -/

/-- The mail of the services `ι`, and the messages sent. -/
structure Post (ι : Type) where
  mail : ι → Mail
  kafka : List Message

namespace Post

variable {ι : Type}

/-- The event `e` about the order `o` has been written for the topic `topic`. -/
def Event (P : Post ι) (topic : EventType) (o : UUID) (e : Envelope) : Prop :=
  ∃ i, ∃ x ∈ (P.mail i).outbox.rows, x.topic = topic ∧ x.key = o ∧ x.payload = e

/-- The id of an event. -/
def Used (P : Post ι) (id : UUID) : Prop :=
  ∃ i, ∃ x ∈ (P.mail i).outbox.rows, x.payload.eventId = id

/-- The mail fits together, when the service `i` writes for the topics `produces i`. -/
structure Sound (produces : ι → List EventType) (P : Post ι) : Prop where
  shape : ∀ i, ∀ x ∈ (P.mail i).outbox.rows, x.topic ∈ produces i ∧
    x.payload.eventType = x.topic ∧ x.payload.payload.orderId = some x.key
  unique : ∀ i j, ∀ x ∈ (P.mail i).outbox.rows, ∀ y ∈ (P.mail j).outbox.rows,
    x.payload.eventId = y.payload.eventId → x.payload = y.payload
  /-- Only events are handled. -/
  ledger : ∀ i, ∀ e ∈ (P.mail i).processed, P.Used e
  /-- Only events are sent. -/
  sent : ∀ m ∈ P.kafka, ∃ o, P.Event m.topic o m.value
  /-- A row that is marked as published has been sent. -/
  marked : ∀ i, ∀ x ∈ (P.mail i).outbox.rows, x.publishedAt ≠ none →
    ⟨x.topic, x.payload⟩ ∈ P.kafka

/-- A transaction of the service `i`. -/
structure Writes (i : ι) (new : Option OutboxRow) (done : Option UUID) (P P' : Post ι) : Prop where
  mail : (P.mail i).Adds new done (P'.mail i)
  others : ∀ j, j ≠ i → P'.mail j = P.mail j
  kafka : P'.kafka = P.kafka

/-- The relay of the service `i` sends the row `x`, and marks it unless its transaction fails. -/
structure Relays (i : ι) (x : OutboxRow) (P P' : Post ι) : Prop where
  row : x ∈ (P.mail i).outbox.rows
  mail : P'.mail i = P.mail i ∨ ∃ now, P'.mail i = (P.mail i).publish x.id now
  others : ∀ j, j ≠ i → P'.mail j = P.mail j
  kafka : P'.kafka = P.kafka ++ [⟨x.topic, x.payload⟩]

variable {produces : ι → List EventType} {P P' : Post ι} {i : ι} {topic topic' : EventType}
  {o o' id : UUID} {e e' : Envelope} {x y : OutboxRow} {new : Option OutboxRow}
  {done : Option UUID}

theorem Event.used (h : P.Event topic o e) : P.Used e.eventId := by
  obtain ⟨i, x, hx, -, -, rfl⟩ := h
  exact ⟨i, x, hx, rfl⟩

namespace Sound

theorem eventType (h : P.Sound produces) (he : P.Event topic o e) : e.eventType = topic := by
  obtain ⟨i, x, hx, rfl, -, rfl⟩ := he
  exact (h.shape i x hx).2.1

theorem orderId (h : P.Sound produces) (he : P.Event topic o e) : e.payload.orderId = some o := by
  obtain ⟨i, x, hx, -, rfl, rfl⟩ := he
  exact (h.shape i x hx).2.2

/-- An event has one topic and is about one order. -/
theorem event_inj (h : P.Sound produces) (he : P.Event topic o e) (he' : P.Event topic' o' e')
    (hid : e.eventId = e'.eventId) : topic = topic' ∧ o = o' ∧ e = e' := by
  have heq : e = e' := by
    obtain ⟨i, x, hx, -, -, rfl⟩ := he
    obtain ⟨j, y, hy, -, -, rfl⟩ := he'
    exact h.unique i j x hx y hy hid
  subst heq
  refine ⟨(h.eventType he).symm.trans (h.eventType he'), ?_, rfl⟩
  exact Option.some.inj ((h.orderId he).symm.trans (h.orderId he'))

end Sound

/-! ### A transaction -/

namespace Writes

/-- The rows of any outbox after a transaction. -/
theorem mem_rows (h : Writes i new done P P') (j : ι) :
    x ∈ (P'.mail j).outbox.rows ↔ x ∈ (P.mail j).outbox.rows ∨ (j = i ∧ x ∈ new) := by
  by_cases hj : j = i
  · subst hj
    rw [h.mail.outbox]
    simp
  · rw [h.others j hj]
    simp [hj]

theorem mem_processed (h : Writes i new done P P') (j : ι) :
    id ∈ (P'.mail j).processed ↔ id ∈ (P.mail j).processed ∨ (j = i ∧ id ∈ done) := by
  by_cases hj : j = i
  · subst hj
    rw [h.mail.processed]
    simp
  · rw [h.others j hj]
    simp [hj]

theorem event (h : Writes i new done P P') : P'.Event topic o e ↔
    P.Event topic o e ∨ ∃ x ∈ new, x.topic = topic ∧ x.key = o ∧ x.payload = e := by
  constructor
  · rintro ⟨j, x, hx, hxe⟩
    rcases (h.mem_rows j).1 hx with hx | ⟨-, hx⟩
    · exact .inl ⟨j, x, hx, hxe⟩
    · exact .inr ⟨x, hx, hxe⟩
  · rintro (⟨j, x, hx, hxe⟩ | ⟨x, hx, hxe⟩)
    · exact ⟨j, x, (h.mem_rows j).2 (.inl hx), hxe⟩
    · exact ⟨i, x, (h.mem_rows i).2 (.inr ⟨rfl, hx⟩), hxe⟩

theorem event_mono (h : Writes i new done P P') (he : P.Event topic o e) : P'.Event topic o e :=
  h.event.2 (.inl he)

theorem used (h : Writes i new done P P') (hid : P.Used id) : P'.Used id := by
  obtain ⟨j, x, hx, rfl⟩ := hid
  exact ⟨j, x, (h.mem_rows j).2 (.inl hx), rfl⟩

end Writes

/-- A transaction that writes an event of the right shape, with a new id, and enters an event into
the ledger, keeps the mail sound. -/
theorem Sound.writes (hs : P.Sound produces) (h : Writes i new done P P')
    (hnew : ∀ x ∈ new, (x.topic ∈ produces i ∧ x.payload.eventType = x.topic ∧
      x.payload.payload.orderId = some x.key) ∧ ¬ P.Used x.payload.eventId ∧
      x.publishedAt = none)
    (hdone : ∀ id ∈ done, P.Used id) : P'.Sound produces where
  shape j x hx := by
    rcases (h.mem_rows j).1 hx with hx | ⟨rfl, hx⟩
    · exact hs.shape j x hx
    · exact (hnew x hx).1
  unique j k x hx y hy hid := by
    rcases (h.mem_rows j).1 hx with hx | ⟨-, hx⟩ <;> rcases (h.mem_rows k).1 hy with hy | ⟨-, hy⟩
    · exact hs.unique j k x hx y hy hid
    · exact absurd ⟨j, x, hx, hid⟩ (hnew y hy).2.1
    · exact absurd ⟨k, y, hy, hid.symm⟩ (hnew x hx).2.1
    · rw [Option.mem_unique hx hy]
  ledger j id hid := by
    rcases (h.mem_processed j).1 hid with hid | ⟨-, hid⟩
    · exact h.used (hs.ledger j id hid)
    · exact h.used (hdone id hid)
  sent m hm := by
    rw [h.kafka] at hm
    obtain ⟨o, ho⟩ := hs.sent m hm
    exact ⟨o, h.event_mono ho⟩
  marked j x hx hp := by
    rw [h.kafka]
    rcases (h.mem_rows j).1 hx with hx | ⟨-, hx⟩
    · exact hs.marked j x hx hp
    · exact absurd (hnew x hx).2.2 hp

/-! ### A step of a relay -/

namespace Relays

/-- A row after the step is one from before, up to the mark. -/
theorem of_mem_rows (h : Relays i x P P') (j : ι) (hy : y ∈ (P'.mail j).outbox.rows) :
    y ∈ (P.mail j).outbox.rows ∨ (j = i ∧ ∃ now, y = { x with publishedAt := some now }) := by
  by_cases hj : j = i
  · subst hj
    rcases h.mail with hm | ⟨now, hm⟩
    · exact .inl (hm ▸ hy)
    · rw [hm, Mail.mem_rows_publish] at hy
      obtain ⟨z, hz, rfl⟩ := hy
      split_ifs with hid
      · have hzx : z = x :=
          Option.some.inj ((Table.get?_of_mem hz).symm.trans (hid ▸ Table.get?_of_mem h.row))
        exact .inr ⟨rfl, now, by rw [hzx]⟩
      · exact .inl hz
  · rw [h.others j hj] at hy
    exact .inl hy

/-- What a relay does to the mail of any service. -/
theorem marked (h : Relays i x P P') (j : ι) : (P.mail j).Marked (P'.mail j) := by
  by_cases hj : j = i
  · subst hj
    exact h.mail.imp_right fun ⟨now, hm⟩ => ⟨x.id, now, hm⟩
  · exact .inl (h.others j hj)

theorem event (h : Relays i x P P') : P'.Event topic o e ↔ P.Event topic o e := by
  constructor
  · rintro ⟨j, y, hy, rfl, rfl, rfl⟩
    obtain ⟨z, hz, ht, hk, hp⟩ := (h.marked j).of_mem hy
    exact ⟨j, z, hz, ht.symm, hk.symm, hp.symm⟩
  · rintro ⟨j, y, hy, rfl, rfl, rfl⟩
    obtain ⟨z, hz, hze⟩ := (h.marked j).mem hy
    exact ⟨j, z, hz, hze⟩

theorem used (h : Relays i x P P') (hid : P.Used id) : P'.Used id := by
  obtain ⟨j, y, hy, rfl⟩ := hid
  obtain ⟨z, hz, -, -, hp⟩ := (h.marked j).mem hy
  exact ⟨j, z, hz, by rw [hp]⟩

end Relays

/-- A relay keeps the mail sound. -/
theorem Sound.relays (hs : P.Sound produces) (h : Relays i x P P') : P'.Sound produces where
  -- what is asked of a row does not depend on the mark
  shape j y hy := by
    obtain ⟨z, hz, ht, hk, hp⟩ := (h.marked j).of_mem hy
    rw [ht, hk, hp]
    exact hs.shape j z hz
  unique j k y hy z hz hid := by
    obtain ⟨y₀, hy₀, -, -, hpy⟩ := (h.marked j).of_mem hy
    obtain ⟨z₀, hz₀, -, -, hpz⟩ := (h.marked k).of_mem hz
    rw [hpy, hpz] at hid ⊢
    exact hs.unique j k y₀ hy₀ z₀ hz₀ hid
  ledger j id hid := by
    rw [(h.marked j).processed] at hid
    exact h.used (hs.ledger j id hid)
  sent m hm := by
    rw [h.kafka] at hm
    rcases List.mem_append.1 hm with hm | hm
    · obtain ⟨o, ho⟩ := hs.sent m hm
      exact ⟨o, h.event.2 ho⟩
    · obtain rfl := List.mem_singleton.1 hm
      exact ⟨x.key, h.event.2 ⟨i, x, h.row, rfl, rfl, rfl⟩⟩
  -- the row that is marked is the one that has just been sent
  marked j y hy hp := by
    rw [h.kafka, List.mem_append]
    rcases h.of_mem_rows j hy with hy | ⟨-, now, rfl⟩
    · exact .inl (hs.marked j y hy hp)
    · exact .inr (List.mem_singleton_self _)

end Post

end FoodFlow
