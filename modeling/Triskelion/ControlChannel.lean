import Triskelion.Authority
import Triskelion.RequestFraming

/-! The two threads joined by the request channel. Registrations and ends of stream
travel on it in band, marked by the request codes -1 and -2; a client chooses the code
of its own requests. -/

namespace Triskelion.ControlChannel

open IoThread RequestFraming List EventLoop ReplyMsg

def forwarded (actions : List IoAction) : List RequestMsg :=
  actions.filterMap fun
    | .forward msg => some msg
    | _ => none

/-- What the handler of a request says. -/
def handlerReply (H : Handlers) (ev : EventLoop) (msg : RequestMsg) : List UInt8 :=
  (H (ev.deposit msg.clientFd msg.inflightFds).1 msg.clientFd msg.header msg.buf).2

structure Entry where
  msg : RequestMsg
  told : List UInt8
  outcome : Outcome

/-- The authority on the messages of the channel, in their order; `clock` tells the
time at which it takes each. -/
def processAll (H : Handlers) (clock : Nat → Nat) : Nat → EventLoop → List RequestMsg → List Entry
  | _, _, [] => []
  | k, ev, msg :: later =>
    ⟨msg, handlerReply H ev msg, (ev.processRequest H (clock k) msg).2⟩ ::
      processAll H clock (k + 1) (ev.processRequest H (clock k) msg).1 later

def content (reply : ReplyMsg) : RawFd × List UInt8 := (reply.clientFd, reply.reply)

/-- The complete requests of a client, in the order of its stream, each dispatched and
answered by one reply to it, with what its handler says. -/
def Served (fd : RawFd) (events : List Event) (log : List Entry) : Prop :=
  let own := log.filter fun e => e.msg.clientFd = fd
  own.map (·.msg.buf) = (requestFramer.frames (streamOf fd events)).1 ∧
    ∀ e ∈ own, e.outcome.reply.map content = some (fd, e.told)

def IsControl (header : RequestHeader) : Prop := header.req = -1 ∨ header.req = -2

instance (header : RequestHeader) : Decidable (IsControl header) :=
  inferInstanceAs (Decidable (_ ∨ _))

theorem reply_processRequest (H : Handlers) (ev : EventLoop) (now : Nat) (msg : RequestMsg) :
    (ev.processRequest H now msg).2.reply.map content =
      if IsControl msg.header then none else some (msg.clientFd, handlerReply H ev msg) := by
  rw [processRequest]
  split
  · next code => rw [if_pos (.inl code)]; rfl
  · next one =>
    split
    · next code => rw [if_pos (.inr code)]; rfl
    · next two =>
      rw [if_neg (fun control => control.elim one two)]
      rfl

theorem processAll_msgs (H : Handlers) (clock : Nat → Nat) (k : Nat) (ev : EventLoop)
    (msgs : List RequestMsg) : (processAll H clock k ev msgs).map Entry.msg = msgs := by
  induction msgs generalizing k ev with
  | nil => rfl
  | cons msg later ih => rw [processAll, map_cons, ih]

theorem processAll_reply {H : Handlers} {clock : Nat → Nat} {k : Nat} {ev : EventLoop}
    {msgs : List RequestMsg} {e : Entry} (mem : e ∈ processAll H clock k ev msgs) :
    e.outcome.reply.map content =
      if IsControl e.msg.header then none else some (e.msg.clientFd, e.told) := by
  induction msgs generalizing k ev with
  | nil => cases mem
  | cons msg later ih =>
    rcases mem_cons.mp mem with rfl | later
    · exact reply_processRequest H ev (clock k) msg
    · exact ih later

variable {fd : RawFd} {actions : List IoAction}

theorem forwarded_filter :
    (forwarded actions).filter (fun msg => msg.clientFd = fd) = requestsFor fd actions := by
  induction actions with
  | nil => rfl
  | cons action later ih =>
    cases action with
    | forward msg =>
      rw [forwarded, requestsFor] at *
      by_cases own : msg.clientFd = fd <;> simp [own, ih]
    | close | write | sendFd => exact ih

/-- Every request of a client is served unless one of them carries a code that the
threads keep for themselves. -/
theorem served_iff (H : Handlers) (clock : Nat → Nat) (ev : EventLoop) {s : IoThread}
    {fd msgFd : RawFd} (joined : Joined s fd ⟨msgFd, []⟩) (events : List Event)
    (keeps : ∀ event ∈ events, Keeps fd event) :
    Served fd events (processAll H clock 0 ev (forwarded (s.run events).2)) ↔
      ∀ frame ∈ (requestFramer.frames (streamOf fd events)).1, ¬ IsControl (readHeader frame) := by
  obtain ⟨cut, rest, parsed, -, sent⟩ := run_parses events joined partial_nil keeps
  have frames : (requestFramer.frames (streamOf fd events)).1 = cut :=
    congrArg Prod.fst (Framer.frames_of_parses parsed)
  have msgs : ((processAll H clock 0 ev (forwarded (s.run events).2)).filter
      fun e => e.msg.clientFd = fd).map Entry.msg = requestsFor fd (s.run events).2 := by
    rw [← forwarded_filter, ← processAll_msgs H clock 0 ev (forwarded _), filter_map]
    simp only [processAll_msgs, Function.comp_def]
  rw [← msgs, map_map] at sent
  rw [Served, frames]
  constructor
  · rintro ⟨-, answered⟩ frame mem control
    obtain ⟨e, own, same⟩ := mem_map.mp (sent.symm ▸ mem_map_of_mem mem)
    have reply := processAll_reply (mem_filter.mp own).1
    rw [answered e own, (Prod.mk.inj same).1, if_pos control] at reply
    cases reply
  · intro plain
    refine ⟨by simpa [Function.comp_def] using congrArg (map Prod.snd) sent, fun e own => ?_⟩
    obtain ⟨frame, mem, same⟩ := mem_map.mp (sent ▸ mem_map_of_mem own)
    have reply := processAll_reply (mem_filter.mp own).1
    rw [← (Prod.mk.inj same).1, if_neg (plain frame mem)] at reply
    rw [reply, of_decide_eq_true (mem_filter.mp own).2]

theorem served_iff_zero_frame :
    Served 7 [.ready 7 ⟨[], .bytes ⟨replicate 64 0, by decide, by decide⟩ []⟩]
        (processAll (fun _ _ _ _ => ([], [])) id 0 ((new 5).register 7 6)
          (forwarded ((IoThread.new.track 7 6).run
            [.ready 7 ⟨[], .bytes ⟨replicate 64 0, by decide, by decide⟩ []⟩]).2)) ↔
      ∀ frame ∈ (requestFramer.frames (streamOf 7
          [.ready 7 ⟨[], .bytes ⟨replicate 64 0, by decide, by decide⟩ []⟩])).1,
        ¬ IsControl (readHeader frame) := by
  refine served_iff _ _ _ ⟨rfl, rfl⟩ _ fun event mem => ?_
  cases mem_singleton.mp mem
  exact fun _ closed => by cases closed

/-- The code of an end of stream, from a client that goes on. -/
def forgedChunk : ReadChunk :=
  ⟨[0xFE, 0xFF, 0xFF, 0xFF] ++ replicate 60 0, by decide, by decide⟩

/-- The client is removed, and its request never answered. -/
theorem forged_disconnect_unserved : ¬ Served 7 [.ready 7 ⟨[], .bytes forgedChunk []⟩]
        (processAll (fun _ _ _ _ => ([], [])) id 0 ((new 5).register 7 6)
          (forwarded ((IoThread.new.track 7 6).run [.ready 7 ⟨[], .bytes forgedChunk []⟩]).2)) := by
  unfold Served
  decide +kernel

end Triskelion.ControlChannel
