import Mathlib.Data.List.Basic
import WalletToolbox.Monitor.TaskArcSse

/-! # Where streamed events go

Every event before the client's resume position is in the channel, with the task, or was refused by
a channel that was full.
The resume position moves past a refused event like past any other, so the server does not send it
again. -/

namespace WalletToolbox.ArcSse

open WalletToolbox.Lib

/-- The event is in the channel, in `pending_events`, or was given to `process_status_event`. -/
def State.Holds (s : State) (e : Streamed) : Prop :=
  e ∈ s.channel ∨ e ∈ s.pendingEvents ∨ e ∈ s.processed

/-- The event came when the channel held as many others as it has slots. -/
def State.Refused (s : State) (e : Streamed) : Prop :=
  ∃ queued, (e, queued) ∈ s.dropped ∧ queued.length = channelCapacity

/-- The message at this place of the log is the one that `last_event_id` names, or an earlier one. -/
def State.Passed (s : State) (position : Nat) : Prop :=
  ∃ last msg, position ≤ last ∧ s.log[last]? = some msg ∧ s.lastEventId = some msg.id

instance (s : State) (e : Streamed) : Decidable (s.Holds e) :=
  inferInstanceAs (Decidable (e ∈ s.channel ∨ e ∈ s.pendingEvents ∨ e ∈ s.processed))

variable {start : List Message → Nat} {parse : String → Option ArcSseEvent}

variable (parse) in
/-- A well-formed status event at this place of the log has gone somewhere. -/
def State.Accounts (s : State) (position : Nat) : Prop :=
  ∀ msg event, s.log[position]? = some msg → msg.event = "status" → parse msg.data = some event →
    s.Holds ⟨position, event⟩ ∨ s.Refused ⟨position, event⟩

variable (parse) in
/-- A stream has handed over everything before its next message, and the resume position names a
message up to which everything has been handed over. -/
structure State.Kept (s : State) : Prop where
  ids : ∀ (i j : Nat) (msg msg' : Message), s.log[i]? = some msg → s.log[j]? = some msg' → msg.id = msg'.id →
    msg.id ≠ "" → i = j
  bound : ∀ c, s.connection = some c → c.next ≤ s.log.length
  streamed : ∀ c, s.connection = some c → ∀ position < c.next, s.Accounts parse position
  inherited : ∀ c, s.connection = some c → c.lastId ≠ "" →
    ∃ position < c.next, ∃ msg : Message, s.log[position]? = some msg ∧ msg.id = c.lastId
  resume : ∀ id, s.lastEventId = some id → id ≠ "" ∧ ∃ (last : Nat) (msg : Message),
    s.log[last]? = some msg ∧ msg.id = id ∧ ∀ position ≤ last, s.Accounts parse position

/-- A step that changes nothing of the log and loses no event keeps the account. -/
theorem State.Accounts.mono {s s' : State} {position : Nat} (h : s.Accounts parse position)
    (hlog : s'.log = s.log) (hholds : ∀ e, s.Holds e → s'.Holds e)
    (hdropped : s.dropped ⊆ s'.dropped) : s'.Accounts parse position := by
  intro msg event hmsg hstatus hparse
  rw [hlog] at hmsg
  rcases h msg event hmsg hstatus hparse with hholds' | ⟨queued, hmem, hfull⟩
  · exact .inl (hholds _ hholds')
  · exact .inr ⟨queued, hdropped hmem, hfull⟩

/-- A new message leaves the account of the earlier ones. -/
theorem State.Accounts.publish {s : State} {position : Nat} (h : s.Accounts parse position)
    (hold : position < s.log.length) (msg : Message) :
    State.Accounts parse { s with log := s.log ++ [msg] } position := by
  intro msg' event hmsg
  exact h msg' event (by rwa [List.getElem?_append_left hold] at hmsg)

/-- The server resumes right after the message that the id names. -/
theorem State.Kept.resumeAt {s : State} (h : s.Kept parse) {last : Nat} {msg : Message}
    (hlast : s.log[last]? = some msg) (hid : msg.id ≠ "") :
    ArcSse.resumeAt start s.log (some msg.id) = last + 1 := by
  obtain ⟨hlt, hmsg⟩ := List.getElem?_eq_some_iff.mp hlast
  have hfound : s.log.findIdx (·.id == msg.id) < s.log.length :=
    List.findIdx_lt_length_of_exists ⟨msg, List.mem_of_getElem? hlast, beq_self_eq_true _⟩
  have hsame : (s.log.get ⟨_, hfound⟩).id = msg.id :=
    beq_iff_eq.mp (List.findIdx_getElem (w := hfound))
  have heq := h.ids _ last _ msg (List.getElem?_eq_getElem hfound) hlast hsame (fun heq => hid (hsame.symm.trans heq))
  simp only [ArcSse.resumeAt, heq]

theorem State.Kept.publish {s : State} (h : s.Kept parse) {msg : Message}
    (hfresh : msg.id = "" ∨ ∀ logged ∈ s.log, logged.id ≠ msg.id) :
    State.Kept parse { s with log := s.log ++ [msg] } where
  ids := by
    intro i j msg₁ msg₂ h₁ h₂ heq hid
    have hold : ∀ {k m}, (s.log ++ [msg])[k]? = some m →
        s.log[k]? = some m ∨ (k = s.log.length ∧ m = msg) := by
      intro k m hk
      rw [List.getElem?_append] at hk
      split at hk
      · exact .inl hk
      · rename_i hge
        rw [List.getElem?_singleton] at hk
        split at hk
        · exact .inr ⟨by omega, (Option.some.inj hk).symm⟩
        · cases hk
    rcases hold h₁ with hold₁ | ⟨hi, rfl⟩ <;> rcases hold h₂ with hold₂ | ⟨hj, rfl⟩
    · exact h.ids i j _ _ hold₁ hold₂ heq hid
    · rcases hfresh with hempty | hfresh
      · exact absurd (heq.trans hempty) hid
      · exact absurd heq (hfresh _ (List.mem_of_getElem? hold₁))
    · rcases hfresh with hempty | hfresh
      · exact absurd hempty hid
      · exact absurd heq.symm (hfresh _ (List.mem_of_getElem? hold₂))
    · exact hi.trans hj.symm
  bound := by
    intro c hc
    have := h.bound c hc
    simp only [List.length_append, List.length_singleton]
    omega
  streamed := by
    intro c hc position hlt
    exact (h.streamed c hc position hlt).publish (Nat.lt_of_lt_of_le hlt (h.bound c hc)) msg
  inherited := by
    intro c hc hid
    obtain ⟨position, hlt, logged, hlogged, heq⟩ := h.inherited c hc hid
    have hin := (List.getElem?_eq_some_iff.mp hlogged).1
    exact ⟨position, hlt, logged, by rw [List.getElem?_append_left hin, hlogged], heq⟩
  resume := by
    intro id hlast
    obtain ⟨hid, last, logged, hlogged, heq, hall⟩ := h.resume id hlast
    have hin := (List.getElem?_eq_some_iff.mp hlogged).1
    refine ⟨hid, last, logged, by rw [List.getElem?_append_left hin, hlogged], heq, ?_⟩
    intro position hle
    exact (hall position hle).publish (Nat.lt_of_le_of_lt hle hin) msg

theorem State.Kept.connect {s : State} (h : s.Kept parse) (hstart : ReplaysLog start) :
    State.Kept parse { s with connection := some ⟨ArcSse.resumeAt start s.log s.lastEventId, ""⟩ } := by
  have hresume : ArcSse.resumeAt start s.log s.lastEventId ≤ s.log.length ∧
      ∀ position < ArcSse.resumeAt start s.log s.lastEventId, s.Accounts parse position := by
    cases hlast : s.lastEventId with
    | none =>
      rw [ArcSse.resumeAt, hstart]
      exact ⟨Nat.zero_le _, fun position hlt => absurd hlt (Nat.not_lt_zero _)⟩
    | some id =>
      obtain ⟨hid, last, msg, hmsg, rfl, hall⟩ := h.resume id hlast
      rw [h.resumeAt hmsg hid]
      exact ⟨(List.getElem?_eq_some_iff.mp hmsg).1, fun position hlt =>
        hall position (Nat.lt_succ_iff.mp hlt)⟩
  refine ⟨h.ids, ?_, ?_, ?_, h.resume⟩
  · rintro c ⟨⟩
    exact hresume.1
  · rintro c ⟨⟩ position hlt
    exact hresume.2 position hlt
  · rintro c ⟨⟩ hid
    exact absurd rfl hid

/-- A step that closes the stream and loses no event. -/
theorem State.Kept.close {s s' : State} (h : s.Kept parse) (hlog : s'.log = s.log)
    (hconnection : s'.connection = none) (hlast : s'.lastEventId = s.lastEventId)
    (hholds : ∀ e, s.Holds e → s'.Holds e) (hdropped : s.dropped ⊆ s'.dropped) :
    s'.Kept parse where
  ids := hlog ▸ h.ids
  bound := fun c hc => nomatch hconnection.symm.trans hc
  streamed := fun c hc => nomatch hconnection.symm.trans hc
  inherited := fun c hc => nomatch hconnection.symm.trans hc
  resume := by
    intro id hid
    obtain ⟨hne, last, msg, hmsg, heq, hall⟩ := h.resume id (hlast ▸ hid)
    refine ⟨hne, last, msg, hlog ▸ hmsg, heq, fun position hle => ?_⟩
    exact (hall position hle).mono hlog hholds hdropped

/-- A new client has no resume position, so nothing is before it. -/
theorem State.Kept.forget {s s' : State} (h : s.Kept parse) (hlog : s'.log = s.log)
    (hconnection : s'.connection = none) (hlast : s'.lastEventId = none) : s'.Kept parse where
  ids := hlog ▸ h.ids
  bound := fun _ hc => nomatch hconnection.symm.trans hc
  streamed := fun _ hc => nomatch hconnection.symm.trans hc
  inherited := fun _ hc => nomatch hconnection.symm.trans hc
  resume := fun _ hid => nomatch hlast.symm.trans hid

/-- A step of the task moves events and loses none. -/
theorem State.Kept.move {s s' : State} (h : s.Kept parse) (hlog : s'.log = s.log)
    (hconnection : s'.connection = s.connection) (hlast : s'.lastEventId = s.lastEventId)
    (hholds : ∀ e, s.Holds e → s'.Holds e) (hdropped : s.dropped ⊆ s'.dropped) :
    s'.Kept parse where
  ids := hlog ▸ h.ids
  bound := by
    rw [hconnection, hlog]
    exact h.bound
  streamed := by
    intro c hc position hlt
    exact (h.streamed c (hconnection ▸ hc) position hlt).mono hlog hholds hdropped
  inherited := by
    rw [hconnection, hlog]
    exact h.inherited
  resume := by
    intro id hid
    obtain ⟨hne, last, msg, hmsg, heq, hall⟩ := h.resume id (hlast ▸ hid)
    refine ⟨hne, last, msg, hlog ▸ hmsg, heq, fun position hle => ?_⟩
    exact (hall position hle).mono hlog hholds hdropped

/-! ## One message -/

/-- What `try_send` does: the event is in the channel, or was refused by a full one. -/
theorem State.trySend_spec (s : State) (e : Streamed) (hbound : s.channel.length ≤ channelCapacity) :
    (s.trySend e).log = s.log ∧ (s.trySend e).connection = s.connection ∧
      (s.trySend e).lastEventId = s.lastEventId ∧ (∀ e', s.Holds e' → (s.trySend e).Holds e') ∧
      s.dropped ⊆ (s.trySend e).dropped ∧ ((s.trySend e).Holds e ∨ (s.trySend e).Refused e) := by
  by_cases hroom : s.channel.length < channelCapacity
  · rw [State.trySend, if_pos hroom]
    refine ⟨rfl, rfl, rfl, fun e' h => ?_, List.Subset.refl _, .inl (.inl ?_)⟩
    · exact h.imp_left (List.mem_append_left _)
    · exact List.mem_append_right _ (List.mem_singleton_self _)
  · rw [State.trySend, if_neg hroom]
    refine ⟨rfl, rfl, rfl, fun _ h => h, List.subset_append_left _ _, .inr ⟨s.channel, ?_, by omega⟩⟩
    exact List.mem_append_right _ (List.mem_singleton_self _)

/-- What `connect` does with a message: it loses nothing, sends a well-formed status event and takes
its id over. -/
theorem State.onMessage_spec (s : State) (position : Nat) (msg : Message) (id : String)
    (hbound : s.channel.length ≤ channelCapacity) :
    (s.onMessage parse position msg id).log = s.log ∧
      (s.onMessage parse position msg id).connection = s.connection ∧
      ((s.onMessage parse position msg id).lastEventId = s.lastEventId ∨
        id ≠ "" ∧ (s.onMessage parse position msg id).lastEventId = some id) ∧
      (∀ e, s.Holds e → (s.onMessage parse position msg id).Holds e) ∧
      s.dropped ⊆ (s.onMessage parse position msg id).dropped ∧
      ∀ event, msg.event = "status" → parse msg.data = some event →
        (s.onMessage parse position msg id).Holds ⟨position, event⟩ ∨
          (s.onMessage parse position msg id).Refused ⟨position, event⟩ := by
  unfold State.onMessage
  by_cases hstatus : msg.event = "status"
  · rw [if_pos hstatus]
    cases hparse : parse msg.data with
    | none =>
      exact ⟨rfl, rfl, .inl rfl, fun _ h => h, List.Subset.refl _, fun _ _ h => nomatch h⟩
    | some event =>
      by_cases hid : id.isEmpty = true
      · simp only [if_pos hid]
        obtain ⟨hlog, hconn, hlast, hholds, hdropped, hsent⟩ := s.trySend_spec ⟨position, event⟩ hbound
        exact ⟨hlog, hconn, .inl hlast, hholds, hdropped, fun _ _ h => Option.some.inj h ▸ hsent⟩
      · simp only [if_neg hid]
        obtain ⟨hlog, hconn, hlast, hholds, hdropped, hsent⟩ :=
          State.trySend_spec { s with lastEventId := some id } ⟨position, event⟩ hbound
        have hne : id ≠ "" := fun heq => hid (heq ▸ rfl)
        exact ⟨hlog, hconn, .inr ⟨hne, hlast⟩, hholds, hdropped,
          fun _ _ h => Option.some.inj h ▸ hsent⟩
  · rw [if_neg hstatus]
    exact ⟨rfl, rfl, .inl rfl, fun _ h => h, List.Subset.refl _, fun _ h => absurd h hstatus⟩

/-- The stream is one message further: everything up to it is accounted for, and its id belongs to
it or to an earlier message of the stream. -/
theorem State.Kept.advance {s s' : State} (h : s.Kept parse) {c : Connection} {msg : Message}
    {id : String} (hc : s.connection = some c) (hmsg : s.log[c.next]? = some msg)
    (hid : id = if msg.id.isEmpty then c.lastId else msg.id) (hlog : s'.log = s.log)
    (hconn : s'.connection = some ⟨c.next + 1, id⟩)
    (hlast : s'.lastEventId = s.lastEventId ∨ id ≠ "" ∧ s'.lastEventId = some id)
    (hholds : ∀ e, s.Holds e → s'.Holds e) (hdropped : s.dropped ⊆ s'.dropped)
    (hsent : ∀ event, msg.event = "status" → parse msg.data = some event →
      s'.Holds ⟨c.next, event⟩ ∨ s'.Refused ⟨c.next, event⟩) : s'.Kept parse := by
  have hall : ∀ position < c.next + 1, s'.Accounts parse position := by
    intro position hlt
    by_cases hnew : position = c.next
    · subst hnew
      intro msg' event hmsg'
      rw [hlog, hmsg, Option.some_inj] at hmsg'
      exact hmsg' ▸ hsent event
    · exact (h.streamed c hc position (by omega)).mono hlog hholds hdropped
  have howner : id ≠ "" → ∃ position < c.next + 1, ∃ logged : Message,
      s'.log[position]? = some logged ∧ logged.id = id := by
    intro hne
    rw [hlog]
    by_cases hempty : msg.id.isEmpty = true
    · rw [if_pos hempty] at hid
      obtain ⟨position, hlt, logged, hlogged, heq⟩ := h.inherited c hc (hid ▸ hne)
      exact ⟨position, by omega, logged, hlogged, heq.trans hid.symm⟩
    · rw [if_neg hempty] at hid
      exact ⟨c.next, by omega, msg, hmsg, hid.symm⟩
  refine ⟨hlog ▸ h.ids, ?_, ?_, ?_, ?_⟩
  · intro c' hc'
    rw [hconn, Option.some_inj] at hc'
    rw [hlog, ← hc']
    exact (List.getElem?_eq_some_iff.mp hmsg).1
  · intro c' hc' position hlt
    rw [hconn, Option.some_inj] at hc'
    subst hc'
    exact hall position hlt
  · intro c' hc' hne
    rw [hconn, Option.some_inj] at hc'
    subst hc'
    exact howner hne
  · intro id' hid'
    rcases hlast with hsame | ⟨hne, hnew⟩
    · obtain ⟨hne, last, logged, hlogged, heq, hbefore⟩ := h.resume id' (hsame ▸ hid')
      refine ⟨hne, last, logged, hlog ▸ hlogged, heq, fun position hle => ?_⟩
      exact (hbefore position hle).mono hlog hholds hdropped
    · rw [hnew, Option.some_inj] at hid'
      subst hid'
      obtain ⟨last, hlt, logged, hlogged, heq⟩ := howner hne
      exact ⟨hne, last, logged, hlogged, heq, fun position hle => hall position (by omega)⟩

theorem State.Kept.deliver {s : State} (h : s.Kept parse)
    (hbound : s.channel.length ≤ channelCapacity) {c : Connection} {msg : Message}
    (hc : s.connection = some c) (hmsg : s.log[c.next]? = some msg) :
    (s.deliver parse c msg).Kept parse := by
  obtain ⟨hlog, hconn, hlast, hholds, hdropped, hsent⟩ := @State.onMessage_spec parse
    { s with connection := some ⟨c.next + 1, if msg.id.isEmpty then c.lastId else msg.id⟩ }
    c.next msg (if msg.id.isEmpty then c.lastId else msg.id) hbound
  exact h.advance hc hmsg rfl hlog hconn hlast hholds hdropped hsent

/-! ## Every run -/

theorem State.trySend_bound {s : State} {e : Streamed} (h : s.channel.length ≤ channelCapacity) :
    (s.trySend e).channel.length ≤ channelCapacity := by
  by_cases hroom : s.channel.length < channelCapacity
  · rw [State.trySend, if_pos hroom, List.length_append]
    exact hroom
  · rw [State.trySend, if_neg hroom]
    exact h

theorem State.onMessage_bound {s : State} {position : Nat} {msg : Message} {id : String}
    (h : s.channel.length ≤ channelCapacity) :
    (s.onMessage parse position msg id).channel.length ≤ channelCapacity := by
  unfold State.onMessage
  split
  · split
    · apply State.trySend_bound
      by_cases hid : id.isEmpty = true
      · rw [if_pos hid]
        exact h
      · rw [if_neg hid]
        exact h
    · exact h
  · exact h

theorem Action.next_bound {s : State} (a : Action) (h : s.channel.length ≤ channelCapacity) :
    (a.next start parse s).channel.length ≤ channelCapacity := by
  cases a with
  | publish msg => exact h
  | connect => exact h
  | deliver =>
    simp only [Action.next]
    split
    · exact h
    · split
      · exact h
      · exact State.onMessage_bound h
  | disconnect => exact h
  | cancel => exact h
  | asyncSetup => exact Nat.zero_le _
  | trigger => exact Nat.zero_le _
  | runTask => exact h

theorem State.Kept.next {s : State} (h : s.Kept parse) (hstart : ReplaysLog start)
    (hbound : s.channel.length ≤ channelCapacity) {a : Action} (henabled : a.Enabled s) :
    (a.next start parse s).Kept parse := by
  cases a with
  | publish msg => exact h.publish henabled
  | connect => exact h.connect hstart
  | deliver =>
    simp only [Action.next]
    split
    · exact h
    · rename_i c hc
      split
      · exact h
      · rename_i msg hmsg
        exact h.deliver hbound hc hmsg
  | disconnect => exact h.close rfl rfl rfl (fun _ he => he) (List.Subset.refl _)
  | cancel => exact h.close rfl rfl rfl (fun _ he => he) (List.Subset.refl _)
  | asyncSetup => exact h.forget rfl rfl rfl
  | trigger =>
    refine h.move rfl rfl rfl (fun e he => ?_) (List.Subset.refl _)
    rcases he with hmem | hmem | hmem
    · exact .inr (.inl (List.mem_append_right _ hmem))
    · exact .inr (.inl (List.mem_append_left _ hmem))
    · exact .inr (.inr hmem)
  | runTask =>
    refine h.move rfl rfl rfl (fun e he => ?_) (List.Subset.refl _)
    rcases he with hmem | hmem | hmem
    · exact .inl hmem
    · exact .inr (.inr (List.mem_append_right _ hmem))
    · exact .inr (.inr (List.mem_append_left _ hmem))

theorem reaches_kept {ok : State → Action → Prop} {s : State} (hstart : ReplaysLog start)
    (h : (stream start parse).Reaches ok s) :
    s.channel.length ≤ channelCapacity ∧ s.Kept parse := by
  refine h.inv (I := fun s => s.channel.length ≤ channelCapacity ∧ s.Kept parse) ⟨Nat.zero_le _, ?_⟩ ?_
  · refine ⟨?_, ?_, ?_, ?_, ?_⟩
    · intro i j msg msg' hi
      simp [stream] at hi
    · rintro c ⟨⟩
    · rintro c ⟨⟩
    · rintro c ⟨⟩
    · rintro id ⟨⟩
  · intro s a hs henabled _
    exact ⟨a.next_bound hs.1, hs.2.next hstart hs.1 henabled⟩

/-- In every reachable state a well-formed status event at or before `last_event_id` is in the
channel, in `pending_events` or was processed, unless it came when the channel was full. Before its
first event the client names none, and the server then sends its whole log. -/
theorem streamed_event_accounted (start : List Message → Nat) (hstart : ReplaysLog start)
    (parse : String → Option ArcSseEvent) (s : State)
    (h : (stream start parse).Reaches (fun _ _ => True) s) (position : Nat) (msg : Message)
    (event : ArcSseEvent) (hmsg : s.log[position]? = some msg) (hstatus : msg.event = "status")
    (hparse : parse msg.data = some event) (hpassed : s.Passed position) :
    s.Holds ⟨position, event⟩ ∨ s.Refused ⟨position, event⟩ := by
  obtain ⟨last, named, hle, hnamed, hlast⟩ := hpassed
  have hkept := (reaches_kept hstart h).2
  obtain ⟨hne, last', named', hnamed', hid, hall⟩ := hkept.resume _ hlast
  have heq : last' = last := hkept.ids last' last _ _ hnamed' hnamed hid (hid ▸ hne)
  exact hall position (heq ▸ hle) msg event hmsg hstatus hparse

/-! ## A burst -/

def sampleData : String :=
  "\x7b\"txid\":\"aa\",\"txStatus\":\"MINED\",\"timestamp\":\"2025-01-01T00:00:00Z\"\x7d"

def sampleEvent : ArcSseEvent where
  txid := "aa"
  txStatus := "MINED"
  timestamp := "2025-01-01T00:00:00Z"

def sampleParse (data : String) : Option ArcSseEvent :=
  if data = sampleData then some sampleEvent else none

/-- The server that sends its whole log. -/
def wholeLog : List Message → Nat := fun _ => 0

/-- A number of status events, each with an id of its own. -/
def burst (n : Nat) : List Action :=
  (List.range n).map fun i => .publish ⟨"status", sampleData, toString (i + 1)⟩

/-- The state after a burst that one stream delivers before the task looks. -/
def afterBurst (n : Nat) : State :=
  (stream wholeLog sampleParse).after {} (burst n ++ .connect :: List.replicate n .deliver)

theorem streamed_event_accounted_sample :
    (afterBurst 2).Holds ⟨1, sampleEvent⟩ ∨ (afterBurst 2).Refused ⟨1, sampleEvent⟩ := by
  refine streamed_event_accounted wholeLog (fun _ => rfl) sampleParse (afterBurst 2) (System.Reaches.after .init ?_) 1
    ⟨"status", sampleData, "2"⟩ sampleEvent ?_ rfl ?_ ?_
  · decide +kernel
  · decide +kernel
  · decide +kernel
  · exact ⟨1, ⟨"status", sampleData, "2"⟩, Nat.le_refl _, by decide +kernel, by decide +kernel⟩

/-- The last of a hundred and one events in one burst is before `last_event_id` and nowhere. -/
theorem burst_event_lost :
    ∃ s, (stream wholeLog sampleParse).Reaches (fun _ _ => True) s ∧
      s.log[100]? = some ⟨"status", sampleData, "101"⟩ ∧ sampleParse sampleData = some sampleEvent ∧
      s.Passed 100 ∧ ¬ s.Holds ⟨100, sampleEvent⟩ := by
  have hrun : (stream wholeLog sampleParse).Reaches (fun _ _ => True) (afterBurst 101) :=
    System.Reaches.after .init (by decide +kernel)
  have hend : (afterBurst 101).log[100]? = some ⟨"status", sampleData, "101"⟩ ∧
      (afterBurst 101).lastEventId = some "101" ∧ ¬ (afterBurst 101).Holds ⟨100, sampleEvent⟩ := by
    decide +kernel
  exact ⟨_, hrun, hend.1, by decide +kernel, ⟨100, _, Nat.le_refl _, hend.1, hend.2.1⟩, hend.2.2⟩

end WalletToolbox.ArcSse
