import ServiceDirectory.Proofs.Dumps

/-!
# What is acknowledged

Anything may stand at the other end of the queue: it takes events when it likes,
answers dump requests or drops them, and closes the queue at some point or never.
Whatever it does, each datagram comes to at most one acknowledgement, and what was
acknowledged and what was forwarded can be told from one another.
-/

namespace ServiceDirectory.Push

/-! ## One datagram -/

/-- What comes of a datagram, of which no more than the longest datagram is read. -/
def handled (accepts : Bool) (dump : Option String) (datagram : List UInt8) : Handled :=
  handle accepts dump (datagram.take maxDatagram)

/-- What the handling of a datagram comes to, with the reason for each case. -/
inductive Handles (accepts : Bool) (dump : Option String) (datagram : List UInt8) :
    Handled → Prop
  | skipped (hp : packet? datagram = none) : Handles accepts dump datagram {}
  | unknown {p : Packet} (hp : packet? datagram = some p)
      (hkind : p.kind ∉ ["dom", "service", "dump"]) :
      Handles accepts dump datagram
        { ack := some { kind := "unknown-ack", lastRefTime := p.lastRefTime } }
  | refused {p : Packet} (hp : packet? datagram = some p)
      (hkind : p.kind ∈ ["dom", "service", "dump"]) (hclosed : accepts = false) :
      Handles accepts dump datagram {}
  | pushed {p : Packet} (hp : packet? datagram = some p) (hkind : p.kind ∈ ["dom", "service"])
      (hopen : accepts = true) :
      Handles accepts dump datagram
        { ack := some { kind := "push-ack", lastRefTime := p.lastRefTime }
          event := some (.service p.data) }
  | asked {p : Packet} (hp : packet? datagram = some p) (hkind : p.kind = "dump")
      (hopen : accepts = true) :
      Handles accepts dump datagram
        { ack := some
            { kind := "dump-ack", lastRefTime := p.lastRefTime, data := dump.getD "" }
          event := some .dump }

theorem handles (accepts : Bool) (dump : Option String) (datagram : List UInt8) :
    Handles accepts dump datagram (handled accepts dump datagram) := by
  rw [handled, handle, ← packet?]
  cases hp : packet? datagram with
  | none => exact .skipped hp
  | some p =>
      dsimp only
      rw [Ack.ofPacket_eq]
      cases hevent : p.event? with
      | none => exact .unknown hp (Packet.event?_eq_none_iff.mp hevent)
      | some event =>
          cases accepts with
          | false =>
              refine .refused hp ?_ rfl
              by_contra hkind
              rw [Packet.event?_eq_none_iff.mpr hkind] at hevent
              cases hevent
          | true =>
              cases event with
              | service text =>
                  obtain ⟨hkind, rfl⟩ := Packet.event?_eq_service_iff.mp hevent
                  exact .pushed hp (by simpa using hkind) rfl
              | dump => exact .asked hp (Packet.event?_eq_dump_iff.mp hevent) rfl

theorem Handles.of_dump {accepts : Bool} {dump : Option String} {datagram : List UInt8}
    {out : Handled} (h : Handles accepts dump datagram out) (hevent : out.event = some .dump) :
    ∃ p, packet? datagram = some p ∧ p.kind = "dump" := by
  cases h with
  | asked hp hkind hopen => exact ⟨_, hp, hkind⟩
  | skipped hp => cases hevent
  | unknown hp hkind => cases hevent
  | refused hp hkind hclosed => cases hevent
  | pushed hp hkind hopen => cases hevent

theorem Handles.accepts_of_event {accepts : Bool} {dump : Option String} {datagram : List UInt8}
    {out : Handled} (h : Handles accepts dump datagram out) (hevent : out.event ≠ none) :
    accepts = true := by
  cases h with
  | asked hp hkind hopen => exact hopen
  | pushed hp hkind hopen => exact hopen
  | skipped hp => exact absurd rfl hevent
  | unknown hp hkind => exact absurd rfl hevent
  | refused hp hkind hclosed => exact absurd rfl hevent

theorem handled_dump {p : Packet} {datagram : List UInt8} (hp : packet? datagram = some p)
    (hkind : p.kind = "dump") (dump : Option String) :
    handled true dump datagram =
      { ack := some { Ack.ofPacket p with data := dump.getD "" }, event := some .dump } := by
  rw [handled, handle, ← packet?, hp]
  simp only [Packet.event?_eq_dump_iff.mpr hkind, Bool.not_true, Bool.false_eq_true, if_false]

theorem handled_open {p : Packet} {datagram : List UInt8} (hp : packet? datagram = some p) :
    handled true none datagram = { ack := some (Ack.ofPacket p), event := p.event? } := by
  rw [handled, handle, ← packet?, hp]
  cases hevent : p.event? with
  | none => simp only [hevent]
  | some event => cases event <;> simp only [hevent] <;> rfl

/-- What there is to tell of a datagram that is done with. -/
structure Entry where
  datagram : List UInt8
  /-- Whether the queue was open when the datagram was read. -/
  wasOpen : Bool
  /-- How a dump request ended: with a text, or dropped. -/
  answer : Option (Option String)
  ack : Option Ack
  /-- The event that the queue accepted. -/
  event : Option Event

namespace Entry

/-- Acknowledgement and event of a datagram are those that its packet calls for. -/
structure Accounted (e : Entry) : Prop where
  acked : e.ack.isSome = true ↔ ∃ p, packet? e.datagram = some p ∧
    (p.kind ∉ ["dom", "service", "dump"] ∨ e.event.isSome = true)
  echoed : ∀ p ack, packet? e.datagram = some p → e.ack = some ack →
    ack.lastRefTime = p.lastRefTime ∧
      ack.kind = (if p.kind ∈ ["dom", "service"] then "push-ack"
        else if p.kind = "dump" then "dump-ack" else "unknown-ack") ∧
      ack.data = e.answer.join.getD ""
  forwarded : ∀ event, e.event = some event ↔ e.ack.isSome = true ∧
    ∃ p, packet? e.datagram = some p ∧
      (p.kind ∈ ["dom", "service"] ∧ event = .service p.data ∨ p.kind = "dump" ∧ event = .dump)
  accepted : e.event.isSome = true ↔ e.wasOpen = true ∧
    ∃ p, packet? e.datagram = some p ∧ p.kind ∈ ["dom", "service", "dump"]
  answered : e.answer.isSome = true ↔ e.event = some .dump

/-- The entry of a datagram that was handled. -/
def ofDatagram (wasOpen : Bool) (answer : Option (Option String)) (datagram : List UInt8) :
    Entry :=
  let h := handled wasOpen answer.join datagram
  { datagram, wasOpen, answer, ack := h.ack, event := h.event }

theorem accounted_ofDatagram {wasOpen : Bool} {answer : Option (Option String)}
    {datagram : List UInt8}
    (hanswer : answer.isSome = true ↔ (ofDatagram wasOpen answer datagram).event = some .dump) :
    (ofDatagram wasOpen answer datagram).Accounted := by
  have h := handles wasOpen answer.join datagram
  unfold ofDatagram at hanswer ⊢
  generalize handled wasOpen answer.join datagram = out at h hanswer ⊢
  cases h with
  | skipped hp =>
      exact
        { acked := by simp [hp]
          echoed := by simp [hp]
          forwarded := by simp
          accepted := by simp [hp]
          answered := hanswer }
  | @unknown p hp hkind =>
      obtain rfl : answer = none := by simpa using hanswer
      simp only [List.mem_cons, List.not_mem_nil, or_false, not_or] at hkind
      exact
        { acked := by simp [hp, hkind]
          echoed := by simp [hp, hkind]
          forwarded := by simp [hp, hkind]
          accepted := by simp [hp, hkind]
          answered := hanswer }
  | @refused p hp hkind hclosed =>
      have hasks : ¬(p.kind ∉ ["dom", "service", "dump"]) := not_not_intro hkind
      exact
        { acked := by
            simp only [hp, Option.some.injEq, hasks, exists_eq_left', Option.isSome_none,
              Bool.false_eq_true, or_self]
          echoed := by simp
          forwarded := by simp
          accepted := by simp [hclosed]
          answered := hanswer }
  | @pushed p hp hkind hopen =>
      obtain rfl : answer = none := by simpa using hanswer
      rcases (by simpa using hkind : p.kind = "dom" ∨ p.kind = "service") with hkind | hkind <;>
        exact
          { acked := by simp [hp]
            echoed := by simp [hp, hkind]
            forwarded := by simp [hp, hkind, eq_comm]
            accepted := by simp [hp, hopen, hkind]
            answered := hanswer }
  | @asked p hp hkind hopen =>
      exact
        { acked := by simp [hp]
          echoed := by simp [hp, hkind]
          forwarded := by simp [hp, hkind, eq_comm]
          accepted := by simp [hp, hopen, hkind]
          answered := hanswer }

end Entry

/-! ## Receptions -/

/-- The receiver and its queue, with anything at the other end. -/
structure Reception where
  unread : List (List UInt8) := []
  queue : List Event := []
  isOpen : Bool := true
  /-- The dump request that was accepted and has not ended yet. -/
  waiting : Option (List UInt8) := none
  acks : List Ack := []
  /-- All events that the queue accepted, also those that were taken from it since. -/
  accepted : List Event := []
  deriving DecidableEq

namespace Reception

/-- The receiver handles the next datagram, unless it waits for a dump or the queue is full. -/
def read? (r : Reception) : Option Reception :=
  match r.unread, r.waiting with
  | datagram :: unread, none =>
    let h := handled r.isOpen none datagram
    if h.event ≠ none ∧ queueCapacity ≤ r.queue.length then none
    else
      let r := { r with
        unread
        queue := r.queue ++ h.event.toList
        accepted := r.accepted ++ h.event.toList }
      if h.event = some .dump then some { r with waiting := some datagram }
      else some { r with acks := r.acks ++ h.ack.toList }
  | _, _ => none

/-- The other end takes the event that waits longest, for whatever it does with it. -/
def take? (r : Reception) : Option Reception :=
  match r.queue with
  | [] => none
  | _ :: queue => some { r with queue }

/-- The other end answers the dump request that it took, or drops it. -/
def answer? (r : Reception) (data : Option String) : Option Reception :=
  match r.waiting with
  | none => none
  | some datagram =>
    if .dump ∈ r.queue then none
    else
      some { r with
        waiting := none
        acks := r.acks ++ (handled true data datagram).ack.toList }

/-- What the receiver and the other end can do. -/
inductive Step where
  | read
  | take
  | answer (data : Option String)
  /-- No more events are accepted. Those in the queue can still be taken. -/
  | close

/-- How a step ends a dump request. -/
def Step.ending? : Step → Option (Option String)
  | .answer data => some data
  | _ => none

/-- The reception after a step, if the step is possible. -/
def step? (r : Reception) : Step → Option Reception
  | .read => r.read?
  | .take => r.take?
  | .answer data => r.answer? data
  | .close => some { r with isOpen := false }

/-- The reception after steps one after another, if all of them are possible. -/
def run? (r : Reception) (steps : List Step) : Option Reception := steps.foldlM step? r

/-- What a step comes to, with the reason for each case. -/
inductive Stepped (r : Reception) : Step → Reception → Prop
  | done {datagram : List UInt8} {unread : List (List UInt8)}
      (hunread : r.unread = datagram :: unread) (hidle : r.waiting = none)
      (hevent : (handled r.isOpen none datagram).event ≠ some .dump) :
      Stepped r .read { r with
        unread
        queue := r.queue ++ (handled r.isOpen none datagram).event.toList
        accepted := r.accepted ++ (handled r.isOpen none datagram).event.toList
        acks := r.acks ++ (handled r.isOpen none datagram).ack.toList }
  | asked {datagram : List UInt8} {unread : List (List UInt8)}
      (hunread : r.unread = datagram :: unread) (hidle : r.waiting = none)
      (hevent : (handled r.isOpen none datagram).event = some .dump) :
      Stepped r .read { r with
        unread
        queue := r.queue ++ [.dump]
        accepted := r.accepted ++ [.dump]
        waiting := some datagram }
  | taken {event : Event} {queue : List Event} (hqueue : r.queue = event :: queue) :
      Stepped r .take { r with queue }
  | ended {datagram : List UInt8} {data : Option String} (hwaiting : r.waiting = some datagram) :
      Stepped r (.answer data) { r with
        waiting := none
        acks := r.acks ++ (handled true data datagram).ack.toList }
  | closed : Stepped r .close { r with isOpen := false }

theorem stepped {r r' : Reception} {s : Step} (h : r.step? s = some r') : Stepped r s r' := by
  obtain ⟨unread, queue, isOpen, waiting, acks, accepted⟩ := r
  cases s with
  | read =>
      cases unread with
      | nil => simp [step?, read?] at h
      | cons datagram unread =>
          cases waiting with
          | some request => simp [step?, read?] at h
          | none =>
              simp only [step?, read?] at h
              split at h
              · cases h
              · split at h
                · rename_i hevent
                  rw [hevent] at h
                  obtain rfl := Option.some.inj h
                  exact .asked rfl rfl hevent
                · rename_i hevent
                  obtain rfl := Option.some.inj h
                  exact .done rfl rfl hevent
  | take =>
      cases queue with
      | nil => simp [step?, take?] at h
      | cons event queue =>
          obtain rfl := Option.some.inj h
          exact .taken rfl
  | answer data =>
      cases waiting with
      | none => simp [step?, answer?] at h
      | some datagram =>
          simp only [step?, answer?] at h
          split at h
          · cases h
          · obtain rfl := Option.some.inj h
            exact .ended rfl
  | close =>
      obtain rfl := Option.some.inj h
      exact .closed

/-- Datagrams that wait before an open queue, and nothing else under way. -/
def ofDatagrams (datagrams : List (List UInt8)) : Reception := { unread := datagrams }

/-! ## Accounts -/

/-- The account of a reception: an entry for each datagram that is done with, in their order.
Acknowledgements, accepted events and ended dump requests are those of the entries, but for the
dump request that has not ended. -/
structure Accounts (datagrams : List (List UInt8)) (endings : List (Option String))
    (r : Reception) (entries : List Entry) : Prop where
  datagrams : entries.map Entry.datagram ++ r.waiting.toList ++ r.unread = datagrams
  accounted : ∀ e ∈ entries, e.Accounted
  acks : r.acks = entries.filterMap Entry.ack
  accepted : r.accepted =
    entries.filterMap Entry.event ++ r.waiting.toList.map fun _ => Event.dump
  endings : entries.filterMap Entry.answer = endings
  waiting : ∀ datagram ∈ r.waiting, ∃ p, packet? datagram = some p ∧ p.kind = "dump"
  opened : r.isOpen = true ∨ r.waiting ≠ none → ∀ e ∈ entries, e.wasOpen = true
  /-- The datagrams that were read after the queue was closed come last. -/
  closed : entries.Pairwise fun e later => later.wasOpen = true → e.wasOpen = true

variable {datagrams : List (List UInt8)} {endings : List (Option String)} {r r' : Reception}
  {entries : List Entry}

/-- The datagram that is next is done with. -/
theorem Accounts.enter (h : Accounts datagrams endings r entries) {e : Entry}
    (he : e.Accounted) (hnext : r.waiting.toList ++ r.unread = e.datagram :: r'.unread)
    (hidle : r'.waiting = none) (hacks : r'.acks = r.acks ++ e.ack.toList)
    (haccepted : r'.accepted = entries.filterMap Entry.event ++ e.event.toList)
    (hopen : e.wasOpen = true ↔ r.isOpen = true ∨ r.waiting ≠ none)
    (hstays : r'.isOpen = true → r.isOpen = true) :
    Accounts datagrams (endings ++ e.answer.toList) r' (entries ++ [e]) := by
  have hsingle : ∀ {β : Type} (f : Entry → Option β), [e].filterMap f = (f e).toList := by
    intro β f
    rw [List.filterMap_cons]
    cases f e <;> rfl
  have hbefore : e.wasOpen = true → ∀ e' ∈ entries, e'.wasOpen = true :=
    fun hwas => h.opened (hopen.mp hwas)
  constructor
  case datagrams =>
    rw [← h.datagrams, List.append_assoc (entries.map _), hnext, hidle]
    simp
  case accounted => simpa [or_imp, forall_and] using ⟨h.accounted, he⟩
  case acks => rw [hacks, h.acks, List.filterMap_append, hsingle]
  case accepted => simp [haccepted, hidle, hsingle]
  case endings => rw [List.filterMap_append, h.endings, hsingle]
  case waiting => simp [hidle]
  case opened =>
    intro hnow e' he'
    have hwas : e.wasOpen = true :=
      hopen.mpr (Or.inl (hstays (hnow.resolve_right (not_not_intro hidle))))
    rcases List.mem_append.mp he' with he' | he'
    · exact hbefore hwas e' he'
    · rwa [List.mem_singleton.mp he']
  case closed =>
    refine List.pairwise_append.mpr ⟨h.closed, List.pairwise_singleton _ _, ?_⟩
    intro e' he' later hlater hwas
    exact hbefore (List.mem_singleton.mp hlater ▸ hwas) e' he'

/-- What a datagram came to is entered when it is done with. -/
theorem Accounts.step (h : Accounts datagrams endings r entries) {s : Step}
    (hs : Stepped r s r') :
    ∃ more, Accounts datagrams (endings ++ s.ending?.toList) r' (entries ++ more) := by
  cases hs with
  | @done datagram unread hunread hidle hevent =>
      refine ⟨[.ofDatagram r.isOpen none datagram],
        h.enter (e := .ofDatagram r.isOpen none datagram) ?_ ?_ hidle rfl ?_ ?_ id⟩
      · exact Entry.accounted_ofDatagram (by simpa [Entry.ofDatagram] using hevent)
      · simp [hidle, hunread, Entry.ofDatagram]
      · simp [h.accepted, hidle, Entry.ofDatagram]
      · simp [hidle, Entry.ofDatagram]
  | @asked datagram unread hunread hidle hevent =>
      have hhandles := handles r.isOpen none datagram
      have hdump := hhandles.of_dump hevent
      have hopen : r.isOpen = true := hhandles.accepts_of_event (by simp [hevent])
      have hdatagrams := h.datagrams
      have haccepted := h.accepted
      refine ⟨[], ?_⟩
      simp only [Step.ending?, Option.toList_none, List.append_nil]
      constructor
      case datagrams => simpa [hidle, hunread] using hdatagrams
      case accounted => exact h.accounted
      case acks => exact h.acks
      case accepted => simpa [hidle] using haccepted
      case endings => exact h.endings
      case waiting => simpa using hdump
      case opened => exact fun _ => h.opened (Or.inl hopen)
      case closed => exact h.closed
  | taken hqueue =>
      refine ⟨[], ?_⟩
      simp only [Step.ending?, Option.toList_none, List.append_nil]
      exact ⟨h.datagrams, h.accounted, h.acks, h.accepted, h.endings, h.waiting, h.opened,
        h.closed⟩
  | @ended datagram data hwaiting =>
      obtain ⟨p, hp, hkind⟩ := h.waiting datagram hwaiting
      have hevent : (handled true data datagram).event = some .dump := by
        rw [handled_dump hp hkind]
      refine ⟨[.ofDatagram true (some data) datagram],
        h.enter (e := .ofDatagram true (some data) datagram) ?_ ?_ rfl rfl ?_ ?_ id⟩
      · exact Entry.accounted_ofDatagram (by simpa [Entry.ofDatagram] using hevent)
      · simp [hwaiting, Entry.ofDatagram]
      · simp [h.accepted, hwaiting, Entry.ofDatagram, hevent]
      · simp [hwaiting, Entry.ofDatagram]
  | closed =>
      refine ⟨[], ?_⟩
      simp only [Step.ending?, Option.toList_none, List.append_nil]
      exact ⟨h.datagrams, h.accounted, h.acks, h.accepted, h.endings, h.waiting,
        fun hnow => h.opened (Or.inr (hnow.resolve_left Bool.false_ne_true)), h.closed⟩

theorem accounts {steps : List Step} (hrun : (ofDatagrams datagrams).run? steps = some r) :
    ∃ entries, Accounts datagrams (steps.filterMap Step.ending?) r entries := by
  refine foldlM_induction (P := fun taken r => ∃ entries,
    Accounts datagrams (taken.filterMap Step.ending?) r entries) hrun ?_ ?_
  · exact ⟨[], rfl, by simp, rfl, rfl, rfl, by simp [ofDatagrams], by simp, .nil⟩
  · rintro taken m s m' - ⟨entries, haccounts⟩ hs
    obtain ⟨more, hmore⟩ := haccounts.step (stepped hs)
    refine ⟨entries ++ more, ?_⟩
    rw [List.filterMap_append]
    cases hending : s.ending? <;> simpa [hending] using hmore

/-- The receiver reads on as long as it waits for nothing and has room for an event. -/
theorem isSome_read (hunread : r.unread ≠ []) (hidle : r.waiting = none)
    (hroom : r.isOpen = true → r.queue.length < queueCapacity) :
    (r.step? .read).isSome = true := by
  obtain ⟨datagram, unread, hcons⟩ := List.exists_cons_of_ne_nil hunread
  have hfits : ¬((handled r.isOpen none datagram).event ≠ none ∧
      queueCapacity ≤ r.queue.length) := by
    rintro ⟨hevent, hfull⟩
    have hopen := (handles r.isOpen none datagram).accepts_of_event hevent
    exact Nat.not_lt_of_le hfull (hroom hopen)
  simp only [step?, read?, hcons, hidle, if_neg hfits]
  split <;> rfl

/-- A dump request can be ended as soon as it was taken. -/
theorem isSome_end (hwaiting : r.waiting ≠ none) :
    (r.step? .take).isSome = true ∨ ∀ data, (r.step? (.answer data)).isSome = true := by
  obtain ⟨datagram, hdatagram⟩ := Option.ne_none_iff_exists'.mp hwaiting
  cases hqueue : r.queue with
  | cons event queue =>
      left
      simp [step?, take?, hqueue]
  | nil =>
      right
      intro data
      simp [step?, answer?, hdatagram, hqueue]

end Reception

/-! ## The directory at the other end -/

namespace Line

/-- The event of the queue that is taken in. -/
def Task.event? : Task → Option Event
  | .push event _ => some event
  | .other _ => none

/-- A line as its receiver sees it, which does not know what stands at the other end. -/
def reception (l : Line) (taken : List Event) (request : Option (List UInt8)) : Reception where
  unread := l.unread
  queue := l.queue
  waiting := request
  acks := l.acks
  accepted := taken ++ l.queue

/-- The datagram that an acknowledgement waits to answer. -/
inductive Requests : Option (List UInt8) → Option Ack → Prop
  | nothing : Requests none none
  | dump {datagram : List UInt8} {p : Packet} (hp : packet? datagram = some p)
      (hkind : p.kind = "dump") : Requests (some datagram) (some (Ack.ofPacket p))

variable {l l' : Line} {request : Option (List UInt8)} {d : Directory}
  {read : List (List UInt8)} {tasks : List Task}

theorem Requests.of_idle (h : Requests request l.waiting) (hidle : l.waiting = none) :
    request = none := by
  rw [hidle] at h
  cases h
  rfl

theorem Requests.of_waiting {ack : Ack} (h : Requests request (some ack)) :
    ∃ datagram p, request = some datagram ∧ packet? datagram = some p ∧ p.kind = "dump" ∧
      ack = Ack.ofPacket p := by
  cases h with
  | dump hp hkind => exact ⟨_, _, rfl, hp, hkind, rfl⟩

/-- The directory takes events as anything at the other end could, and answers each request. -/
theorem reception_step (taken : List Event) (hrequest : Requests request l.waiting)
    (hreached : Reached d read tasks l) {s : Step} (hs : Stepped l s l') :
    ∃ steps request', Requests request' l'.waiting ∧
      (l.reception taken request).run? steps = some (l'.reception
        (taken ++ (l.task? s).toList.filterMap Task.event?) request') := by
  cases hs with
  | @skipped datagram unread hunread hidle hp =>
      obtain rfl := hrequest.of_idle hidle
      have hhandled : handled true none datagram = {} := by
        rw [handled, handle, ← packet?, hp]
      refine ⟨[.read], none, hrequest, ?_⟩
      simp [Reception.run?, Reception.step?, Reception.read?, reception, hunread, hhandled, task?]
  | @unknown datagram unread p hunread hidle hp hevent =>
      obtain rfl := hrequest.of_idle hidle
      refine ⟨[.read], none, hrequest, ?_⟩
      simp [Reception.run?, Reception.step?, Reception.read?, reception, hunread,
        handled_open hp, hevent, task?]
  | @queued datagram unread p text hunread hidle hp hevent hroom =>
      obtain rfl := hrequest.of_idle hidle
      refine ⟨[.read], none, hrequest, ?_⟩
      simp [Reception.run?, Reception.step?, Reception.read?, reception, hunread,
        handled_open hp, hevent, hroom, task?]
  | @asked datagram unread p hunread hidle hp hevent hroom =>
      obtain rfl := hrequest.of_idle hidle
      refine ⟨[.read], some datagram, .dump hp (Packet.event?_eq_dump_iff.mp hevent), ?_⟩
      simp [Reception.run?, Reception.step?, Reception.read?, reception, hunread,
        handled_open hp, hevent, hroom, task?]
  | @received text queue c hqueue =>
      refine ⟨[.take], request, hrequest, ?_⟩
      simp [Reception.run?, Reception.step?, Reception.take?, reception, hqueue, task?,
        Task.event?]
  | @answered queue c hqueue =>
      obtain ⟨_, _, _, _, _, _, hwaiting, rfl, _⟩ := hreached.of_dump hqueue
      rw [hwaiting] at hrequest
      obtain ⟨datagram, p, rfl, hp, hkind, hack⟩ := hrequest.of_waiting
      refine ⟨[.take, .answer (some l.directory.dump)], none, .nothing, ?_⟩
      simp [Reception.run?, Reception.step?, Reception.take?, Reception.answer?, reception,
        hqueue, hwaiting, hack, handled_dump hp hkind, task?, Task.event?]
  | performed =>
      refine ⟨[], request, hrequest, ?_⟩
      simp [Reception.run?, reception, task?, List.filterMap_cons, Task.event?]

theorem exists_reception {datagrams : List (List UInt8)} {steps : List Step}
    (hrun : (ofDatagrams datagrams d).run? steps = some l) :
    ∃ seen request, Requests request l.waiting ∧
      (Reception.ofDatagrams datagrams).run? seen = some
        (l.reception (((ofDatagrams datagrams d).tasks steps).filterMap Task.event?) request) := by
  refine foldlM_induction (P := fun steps l => ∃ seen request, Requests request l.waiting ∧
    (Reception.ofDatagrams datagrams).run? seen = some (l.reception
      (((ofDatagrams datagrams d).tasks steps).filterMap Task.event?) request)) hrun ?_ ?_
  · exact ⟨[], none, .nothing, rfl⟩
  · rintro taken m s m' hm ⟨seen, request, hrequest, hseen⟩ hs
    obtain ⟨_, _, hreached⟩ := reached hm
    obtain ⟨more, request', hrequest', hmore⟩ :=
      reception_step (((ofDatagrams datagrams d).tasks taken).filterMap Task.event?) hrequest
        hreached (stepped hs)
    refine ⟨seen ++ more, request', hrequest', ?_⟩
    rw [Reception.run?, List.foldlM_append, tasks_concat hm hs, List.filterMap_append]
    exact Option.bind_eq_some_iff.mpr ⟨_, hseen, hmore⟩

end Line

namespace Reception

/-- Whatever stands at the other end of the queue, and whenever it closes: what was acknowledged
and what was accepted are those of the entries for the datagrams, one for each that is done with;
and the receiver reads on unless it has to wait for the other end. The directory is one of the
things that can stand there. -/
theorem acknowledgements_accounted (datagrams : List (List UInt8)) :
    (∀ steps r, (ofDatagrams datagrams).run? steps = some r →
      (∃ entries, Accounts datagrams (steps.filterMap Step.ending?) r entries) ∧
        (r.unread ≠ [] → r.waiting = none →
          (r.isOpen = true → r.queue.length < queueCapacity) →
            (r.step? .read).isSome = true) ∧
        (r.waiting ≠ none →
          (r.step? .take).isSome = true ∨ ∀ data, (r.step? (.answer data)).isSome = true)) ∧
      ∀ d steps l, (Line.ofDatagrams datagrams d).run? steps = some l →
        ∃ seen request, (ofDatagrams datagrams).run? seen = some (l.reception
          (((Line.ofDatagrams datagrams d).tasks steps).filterMap Line.Task.event?) request) := by
  refine ⟨fun steps r hrun => ⟨accounts hrun, isSome_read, isSome_end⟩, ?_⟩
  intro d steps l hrun
  obtain ⟨seen, request, -, hseen⟩ := Line.exists_reception hrun
  exact ⟨seen, request, hseen⟩

/-- A push and a dump request that are answered, then, while the queue closes, another dump
request, a push, something that asks for nothing and something that is no packet. -/
def contestedDatagrams : List (List UInt8) :=
  [Packet.datagram { kind := "dom", data := "a", lastRefTime := 1 },
    Packet.datagram { kind := "dump", lastRefTime := 2 },
    Packet.datagram { kind := "dump", lastRefTime := 3 },
    Packet.datagram { kind := "service", data := "b", lastRefTime := 4 },
    Packet.datagram { kind := "ping", lastRefTime := 5 }, [0xFF]]

/-- The other end closes the queue while the second dump request is in it, and drops that one. -/
def contestedSteps : List Step :=
  [.read, .read, .take, .take, .answer (some "c"), .read, .close, .take, .answer none, .read,
    .read, .read]

theorem contestedDatagrams_accounted :
    ∃ r entries l seen request,
      (ofDatagrams contestedDatagrams).run? contestedSteps = some r ∧
      r.acks =
        [{ kind := "push-ack", lastRefTime := 1 },
          { kind := "dump-ack", lastRefTime := 2, data := "c" },
          { kind := "dump-ack", lastRefTime := 3 },
          { kind := "unknown-ack", lastRefTime := 5 }] ∧
      r.accepted = [.service "a", .dump, .dump] ∧
      Accounts contestedDatagrams [some "c", none] r entries ∧
      (Line.ofDatagrams contestedDatagrams {}).run? [.read, .ingest { clock := 1 }] = some l ∧
      (ofDatagrams contestedDatagrams).run? seen =
        some (l.reception [.service "a"] request) := by
  have hsent : ((ofDatagrams contestedDatagrams).run? contestedSteps).map
      (fun r => (r.acks, r.accepted)) =
        some ([{ kind := "push-ack", lastRefTime := 1 },
          { kind := "dump-ack", lastRefTime := 2, data := "c" },
          { kind := "dump-ack", lastRefTime := 3 },
          { kind := "unknown-ack", lastRefTime := 5 }], [.service "a", .dump, .dump]) := by
    decide +kernel
  have hline : ((Line.ofDatagrams contestedDatagrams {}).run?
      [.read, .ingest { clock := 1 }]).map (fun l => l.acks.length) = some 1 := by
    decide +kernel
  have htasks : ((Line.ofDatagrams contestedDatagrams {}).tasks
      [.read, .ingest { clock := 1 }]).filterMap Line.Task.event? = [.service "a"] := by
    decide +kernel
  obtain ⟨r, hrun, hr⟩ := Option.map_eq_some_iff.mp hsent
  obtain ⟨hacks, haccepted⟩ := Prod.mk.inj hr
  obtain ⟨l, hl, _⟩ := Option.map_eq_some_iff.mp hline
  obtain ⟨hreceptions, hlines⟩ := acknowledgements_accounted contestedDatagrams
  obtain ⟨⟨entries, hentries⟩, _⟩ := hreceptions contestedSteps r hrun
  obtain ⟨seen, request, hseen⟩ := hlines {} _ l hl
  rw [htasks] at hseen
  exact ⟨r, entries, l, seen, request, hrun, hacks, haccepted, hentries, hl, hseen⟩

end Reception

end ServiceDirectory.Push
