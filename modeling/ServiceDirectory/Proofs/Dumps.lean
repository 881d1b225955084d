import ServiceDirectory.Proofs.PushLine

/-!
# What a dump shows

The receiver reads nothing while a dump it asked for is not there, and the queue
keeps its order. So a dump is taken from a state in which the documents of all
datagrams before the request were taken in, once each and in their order, and none
of those after it, whatever else the directory does in between.
-/

namespace ServiceDirectory.Push

/-! ## Datagrams -/

namespace Packet

theorem event?_eq (p : Packet) :
    p.event? =
      if p.kind = "dom" ∨ p.kind = "service" then some (.service p.data)
      else if p.kind = "dump" then some .dump
      else none := by
  rw [event?, request]
  split_ifs <;> rfl

theorem event?_eq_service_iff {p : Packet} {text : String} :
    p.event? = some (.service text) ↔ (p.kind = "dom" ∨ p.kind = "service") ∧ text = p.data := by
  rw [event?_eq]
  split_ifs with hservice hdump
  · rw [and_iff_right hservice, Option.some_inj, Event.service.injEq, eq_comm]
  · simp [hservice]
  · simp [hservice]

theorem event?_eq_dump_iff {p : Packet} : p.event? = some .dump ↔ p.kind = "dump" := by
  rw [event?_eq]
  split_ifs with hservice hdump
  · rcases hservice with hkind | hkind <;> simp [hkind]
  · simp [hdump]
  · simp [hdump]

theorem event?_eq_none_iff {p : Packet} :
    p.event? = none ↔ p.kind ∉ ["dom", "service", "dump"] := by
  rw [event?_eq]
  split_ifs with hservice hdump
  · rcases hservice with hkind | hkind <;> simp [hkind]
  · simp [hdump]
  · simpa [hdump] using hservice

end Packet

/-- The acknowledgement of a packet is named for the event that the packet gives. -/
theorem Ack.ofPacket_eq (p : Packet) :
    Ack.ofPacket p =
      { kind :=
          match p.event? with
          | some (.service _) => "push-ack"
          | some .dump => "dump-ack"
          | none => "unknown-ack"
        lastRefTime := p.lastRefTime } := by
  rw [ofPacket, Packet.event?]
  cases p.request <;> rfl

/-- The packet in a datagram, of which no more than the longest datagram is read. -/
def packet? (datagram : List UInt8) : Option Packet := Packet.ofBytes? (datagram.take maxDatagram)

def Event.document? : Event → Option String
  | .service text => some text
  | .dump => none

/-- The document that a datagram pushes. -/
def pushed? (datagram : List UInt8) : Option String :=
  (packet? datagram).bind fun p => p.event?.bind Event.document?

/-- What holds at first and is kept by each step, told of the steps so far, holds of each run. -/
theorem foldlM_induction {State Step : Type} {step? : State → Step → Option State}
    {first last : State} {steps : List Step} {P : List Step → State → Prop}
    (hrun : steps.foldlM step? first = some last) (hfirst : P [] first)
    (hstep : ∀ {taken m s m'}, taken.foldlM step? first = some m → P taken m →
      step? m s = some m' → P (taken ++ [s]) m') : P steps last := by
  induction steps using List.reverseRecOn generalizing last with
  | nil =>
      obtain rfl := Option.some.inj hrun
      exact hfirst
  | append_singleton taken s ih =>
      rw [List.foldlM_append] at hrun
      obtain ⟨m, hm, hs⟩ := Option.bind_eq_some_iff.mp hrun
      have hlast : step? m s = some last := by simpa using hs
      exact hstep hm (ih hm) hlast

namespace Line

/-! ## Steps -/

/-- What a step comes to, with the reason for each case. -/
inductive Stepped (l : Line) : Step → Line → Prop
  | skipped {datagram : List UInt8} {unread : List (List UInt8)}
      (hunread : l.unread = datagram :: unread) (hidle : l.waiting = none)
      (hp : packet? datagram = none) :
      Stepped l .read { l with unread }
  | unknown {datagram : List UInt8} {unread : List (List UInt8)} {p : Packet}
      (hunread : l.unread = datagram :: unread) (hidle : l.waiting = none)
      (hp : packet? datagram = some p) (hevent : p.event? = none) :
      Stepped l .read { l with unread, acks := l.acks ++ [Ack.ofPacket p] }
  | queued {datagram : List UInt8} {unread : List (List UInt8)} {p : Packet} {text : String}
      (hunread : l.unread = datagram :: unread) (hidle : l.waiting = none)
      (hp : packet? datagram = some p) (hevent : p.event? = some (.service text))
      (hroom : l.queue.length < queueCapacity) :
      Stepped l .read { l with
        unread
        queue := l.queue ++ [.service text]
        acks := l.acks ++ [Ack.ofPacket p] }
  | asked {datagram : List UInt8} {unread : List (List UInt8)} {p : Packet}
      (hunread : l.unread = datagram :: unread) (hidle : l.waiting = none)
      (hp : packet? datagram = some p) (hevent : p.event? = some .dump)
      (hroom : l.queue.length < queueCapacity) :
      Stepped l .read { l with
        unread
        queue := l.queue ++ [.dump]
        waiting := some (Ack.ofPacket p) }
  | received {text : String} {queue : List Event} {c : Conditions}
      (hqueue : l.queue = .service text :: queue) :
      Stepped l (.ingest c) { l with
        queue
        directory := (l.directory.perform (.ingest (.service text) c)).2 }
  | answered {queue : List Event} {c : Conditions} (hqueue : l.queue = .dump :: queue) :
      Stepped l (.ingest c) { l with
        queue
        waiting := none
        acks := l.acks ++
          (l.waiting.map fun ack => { ack with data := l.directory.dump }).toList }
  | performed {operation : Operation} :
      Stepped l (.perform operation) { l with
        directory := (l.directory.perform operation).2 }

theorem stepped_of_read? {l l' : Line} (h : l.read? = some l') : Stepped l .read l' := by
  obtain ⟨unread, queue, waiting, acks, directory⟩ := l
  cases unread with
  | nil => simp [read?] at h
  | cons datagram unread =>
      cases waiting with
      | some ack => simp [read?] at h
      | none =>
          cases hp : packet? datagram with
          | none =>
              rw [packet?] at hp
              simp only [read?, hp] at h
              obtain rfl := Option.some.inj h
              exact .skipped rfl rfl hp
          | some p =>
              rw [packet?] at hp
              cases hevent : p.event? with
              | none =>
                  simp only [read?, hp, hevent] at h
                  obtain rfl := Option.some.inj h
                  exact .unknown rfl rfl hp hevent
              | some event =>
                  simp only [read?, hp, hevent] at h
                  split at h
                  · cases h
                  · rename_i hfull
                    have hroom := Nat.lt_of_not_le hfull
                    cases event with
                    | service text =>
                        obtain rfl := Option.some.inj h
                        exact .queued rfl rfl hp hevent hroom
                    | dump =>
                        obtain rfl := Option.some.inj h
                        exact .asked rfl rfl hp hevent hroom

theorem stepped_of_ingest? {l l' : Line} {c : Conditions} (h : l.ingest? c = some l') :
    Stepped l (.ingest c) l' := by
  obtain ⟨unread, queue, waiting, acks, directory⟩ := l
  cases queue with
  | nil => simp [ingest?] at h
  | cons event queue =>
      cases event with
      | service text =>
          simp only [ingest?, Directory.ingest] at h
          obtain rfl := Option.some.inj h
          exact .received rfl
      | dump =>
          simp only [ingest?, Directory.ingest] at h
          obtain rfl := Option.some.inj h
          exact .answered rfl

theorem stepped {l l' : Line} {s : Step} (h : l.step? s = some l') : Stepped l s l' := by
  cases s with
  | read => exact stepped_of_read? h
  | ingest c => exact stepped_of_ingest? h
  | perform operation =>
      obtain rfl := Option.some.inj h
      exact .performed

/-! ## Runs -/

/-- Datagrams that wait before a directory, and nothing else under way. -/
def ofDatagrams (datagrams : List (List UInt8)) (d : Directory) : Line :=
  { unread := datagrams, directory := d }

/-- What the directory carries out: an event of the queue, or something else it is asked. -/
inductive Task where
  | push (event : Event) (conditions : Conditions)
  | other (operation : Operation)

def Task.operation : Task → Operation
  | .push event c => .ingest event c
  | .other operation => operation

/-- The document of the queue that is taken in. -/
def Task.document? : Task → Option String
  | .push event _ => event.document?
  | .other _ => none

/-- What the directory carries out in a step. -/
def task? (l : Line) : Step → Option Task
  | .read => none
  | .ingest c => l.queue.head?.map (.push · c)
  | .perform operation => some (.other operation)

/-- What the directory carries out in a run. -/
def tasks (l : Line) : List Step → List Task
  | [] => []
  | s :: rest =>
    match l.step? s with
    | some l' => (l.task? s).toList ++ l'.tasks rest
    | none => []

variable {first l l' : Line} {steps : List Step}

theorem tasks_concat (hrun : first.run? steps = some l) {s : Step} (hstep : l.step? s = some l') :
    first.tasks (steps ++ [s]) = first.tasks steps ++ (l.task? s).toList := by
  induction steps generalizing first with
  | nil =>
      obtain rfl := Option.some.inj hrun
      simp [tasks, hstep]
  | cons s₀ rest ih =>
      obtain ⟨m, hm, hrest⟩ := Option.bind_eq_some_iff.mp hrun
      simp only [List.cons_append, tasks, hm, ih hrest, List.append_assoc]

/-! ## What is under way -/

/-- The dump request that is waited for, if there is one, is the datagram read last, and its event
is the last one in the queue. All other packets are acknowledged. -/
inductive Awaits (read : List (List UInt8)) (l : Line) : Prop
  | nothing (hwaiting : l.waiting = none) (hqueue : Event.dump ∉ l.queue)
      (hacks : l.acks.length = (read.filterMap packet?).length)
  | dump {before : List (List UInt8)} {datagram : List UInt8} {p : Packet} {queued : List Event}
      (hread : read = before ++ [datagram]) (hp : packet? datagram = some p)
      (hevent : p.event? = some .dump) (hwaiting : l.waiting = some (Ack.ofPacket p))
      (hqueue : l.queue = queued ++ [.dump]) (hqueued : Event.dump ∉ queued)
      (hacks : l.acks.length = (before.filterMap packet?).length)

variable {d : Directory} {read : List (List UInt8)} {tasks : List Task}

theorem Awaits.performed (h : Awaits read l) (directory : Directory) :
    Awaits read { l with directory } := by
  cases h with
  | nothing hwaiting hnone hacks => exact .nothing hwaiting hnone hacks
  | dump hread hp hevent hwaiting hlast hqueued hacks =>
      exact .dump hread hp hevent hwaiting hlast hqueued hacks

/-- A dump request stays the last event of the queue when a document before it is taken in. -/
theorem Awaits.received (h : Awaits read l) {text : String} {queue : List Event}
    (hqueue : l.queue = .service text :: queue) (directory : Directory) :
    Awaits read { l with queue, directory } := by
  cases h with
  | nothing hwaiting hnone hacks =>
      rw [hqueue] at hnone
      exact .nothing hwaiting (List.not_mem_of_not_mem_cons hnone) hacks
  | @dump before datagram p queued hread hp hevent hwaiting hlast hqueued hacks =>
      rw [hqueue] at hlast
      cases queued with
      | nil => cases hlast
      | cons event queued =>
          exact .dump hread hp hevent hwaiting (List.cons.inj hlast).2
            (List.not_mem_of_not_mem_cons hqueued) hacks

/-- The directory has carried out its tasks, and the documents read are those taken in and those
in the queue. -/
structure Reached (d : Directory) (read : List (List UInt8)) (tasks : List Task) (l : Line) :
    Prop where
  directory : l.directory = d.after (tasks.map Task.operation)
  documents : tasks.filterMap Task.document? ++ l.queue.filterMap Event.document? =
    read.filterMap pushed?
  awaits : Awaits read l

theorem Reached.acks_of_idle (h : Reached d read tasks l) (hidle : l.waiting = none) :
    Event.dump ∉ l.queue ∧ l.acks.length = (read.filterMap packet?).length := by
  cases h.awaits with
  | nothing hwaiting hqueue hacks => exact ⟨hqueue, hacks⟩
  | dump hread hp hevent hwaiting hqueue hqueued hacks =>
      rw [hidle] at hwaiting
      cases hwaiting

/-- A dump is taken when its request is all there is in the queue. -/
theorem Reached.of_dump (h : Reached d read tasks l) {queue : List Event}
    (hqueue : l.queue = .dump :: queue) :
    ∃ before datagram p, read = before ++ [datagram] ∧ packet? datagram = some p ∧
      p.event? = some .dump ∧ l.waiting = some (Ack.ofPacket p) ∧ queue = [] ∧
      l.acks.length = (before.filterMap packet?).length := by
  cases h.awaits with
  | nothing hwaiting hnone hacks => exact absurd (hqueue ▸ List.mem_cons_self) hnone
  | @dump before datagram p queued hread hp hevent hwaiting hlast hqueued hacks =>
      rw [hqueue] at hlast
      cases queued with
      | nil =>
          exact ⟨before, datagram, p, hread, hp, hevent, hwaiting, (List.cons.inj hlast).2, hacks⟩
      | cons event queued =>
          obtain ⟨rfl, _⟩ := List.cons.inj hlast
          exact absurd List.mem_cons_self hqueued

/-- Each step carries out its task, and moves documents on without losing or doubling any. -/
theorem Reached.step (h : Reached d read tasks l) {s : Step} (hs : Stepped l s l') :
    ∃ more, l.unread = more ++ l'.unread ∧
      Reached d (read ++ more) (tasks ++ (l.task? s).toList) l' := by
  have hdone : ∀ task : Task, (l.directory.perform task.operation).2 =
      d.after ((tasks ++ [task]).map Task.operation) := by
    intro task
    rw [List.map_append, List.map_singleton, Directory.after_concat, h.directory]
  cases hs with
  | @skipped datagram unread hunread hidle hp =>
      obtain ⟨hqueue, hacks⟩ := h.acks_of_idle hidle
      refine ⟨[datagram], hunread, ?_, ?_, .nothing hidle hqueue ?_⟩
      · simpa [task?] using h.directory
      · simpa [task?, pushed?, hp] using h.documents
      · simpa [hp] using hacks
  | @unknown datagram unread p hunread hidle hp hevent =>
      obtain ⟨hqueue, hacks⟩ := h.acks_of_idle hidle
      refine ⟨[datagram], hunread, ?_, ?_, .nothing hidle hqueue ?_⟩
      · simpa [task?] using h.directory
      · simpa [task?, pushed?, hp, hevent] using h.documents
      · simpa [hp] using hacks
  | @queued datagram unread p text hunread hidle hp hevent hroom =>
      obtain ⟨hqueue, hacks⟩ := h.acks_of_idle hidle
      refine ⟨[datagram], hunread, ?_, ?_, .nothing hidle ?_ ?_⟩
      · simpa [task?] using h.directory
      · simp [task?, pushed?, hp, hevent, ← h.documents, Event.document?]
      · simpa using hqueue
      · simpa [hp] using hacks
  | @asked datagram unread p hunread hidle hp hevent hroom =>
      obtain ⟨hqueue, hacks⟩ := h.acks_of_idle hidle
      refine ⟨[datagram], hunread, ?_, ?_, .dump rfl hp hevent rfl rfl hqueue hacks⟩
      · simpa [task?] using h.directory
      · simp [task?, pushed?, hp, hevent, ← h.documents, Event.document?]
  | @received text queue c hqueue =>
      have htask : l.task? (.ingest c) = some (.push (.service text) c) := by simp [task?, hqueue]
      have hdocuments := h.documents
      refine ⟨[], rfl, ?_, ?_, ?_⟩
      · rw [htask]
        exact hdone (.push (.service text) c)
      · rw [hqueue] at hdocuments
        simpa [htask, Task.document?, Event.document?] using hdocuments
      · rw [List.append_nil]
        exact h.awaits.received hqueue _
  | @answered queue c hqueue =>
      have htask : l.task? (.ingest c) = some (.push .dump c) := by simp [task?, hqueue]
      have hdocuments := h.documents
      obtain ⟨before, datagram, p, hread, hp, _, hwaiting, rfl, hacks⟩ := h.of_dump hqueue
      refine ⟨[], rfl, ?_, ?_, .nothing rfl (by simp) ?_⟩
      · rw [htask]
        exact hdone (.push .dump c)
      · rw [hqueue] at hdocuments
        simpa [htask, List.filterMap_cons, Task.document?, Event.document?] using hdocuments
      · simp [hwaiting, hread, hp, hacks]
  | @performed operation =>
      refine ⟨[], rfl, hdone (.other operation), ?_, ?_⟩
      · simpa [task?, List.filterMap_cons, Task.document?] using h.documents
      · rw [List.append_nil]
        exact h.awaits.performed _

theorem reached {datagrams : List (List UInt8)}
    (hrun : (ofDatagrams datagrams d).run? steps = some l) :
    ∃ read, datagrams = read ++ l.unread ∧
      Reached d read ((ofDatagrams datagrams d).tasks steps) l := by
  refine foldlM_induction (P := fun taken m => ∃ read, datagrams = read ++ m.unread ∧
    Reached d read ((ofDatagrams datagrams d).tasks taken) m) hrun ?_ ?_
  · exact ⟨[], rfl, rfl, rfl, .nothing rfl (by simp [ofDatagrams]) rfl⟩
  · rintro taken m s m' hm ⟨read, hread, hreached⟩ hs
    obtain ⟨more, hmore, hnext⟩ := hreached.step (stepped hs)
    refine ⟨read ++ more, ?_, ?_⟩
    · rw [hread, hmore, List.append_assoc]
    · rw [tasks_concat hm hs]
      exact hnext

/-! ## Dumps -/

/-- The acknowledgement in its place answers a dump request. Its data is the dump of the directory
as it is at some moment of the run: it has carried out its tasks up to then, and the documents
among them are those of the datagrams before the request. -/
inductive DumpShown (datagrams : List (List UInt8)) (d : Directory) (steps : List Step)
    (place : Nat) (ack : Ack) : Prop
  | intro (before : List (List UInt8)) (datagram : List UInt8) (after : List (List UInt8))
      (p : Packet) (taken : List Step) (c : Conditions) (rest : List Step) (l : Line)
      (hdatagrams : datagrams = before ++ datagram :: after)
      (hplace : (before.filterMap packet?).length = place)
      (hp : packet? datagram = some p) (hkind : p.kind = "dump")
      (hsteps : steps = taken ++ .ingest c :: rest)
      (hrun : (ofDatagrams datagrams d).run? taken = some l)
      (hack : ack =
        { kind := "dump-ack", lastRefTime := p.lastRefTime, data := l.directory.dump })
      (hdirectory : l.directory =
        d.after (((ofDatagrams datagrams d).tasks taken).map Task.operation))
      (hdocuments : ((ofDatagrams datagrams d).tasks taken).filterMap Task.document? =
        before.filterMap pushed?)

variable {datagrams : List (List UInt8)} {place : Nat} {ack : Ack}

theorem DumpShown.append (h : DumpShown datagrams d steps place ack) (more : List Step) :
    DumpShown datagrams d (steps ++ more) place ack := by
  obtain ⟨before, datagram, after, p, taken, c, rest, l, hdatagrams, hplace, hp, hkind, hsteps,
    hrun, hack, hdirectory, hdocuments⟩ := h
  refine .intro before datagram after p taken c (rest ++ more) l hdatagrams hplace hp hkind ?_
    hrun hack hdirectory hdocuments
  rw [hsteps, List.append_assoc, List.cons_append]

/-- Only taking in a dump request sends an acknowledgement of one. -/
theorem Stepped.acks {s : Step} (h : Stepped l s l') :
    (∃ sent, l'.acks = l.acks ++ sent ∧ ∀ ack ∈ sent, ack.kind ≠ "dump-ack") ∨
      ∃ c queue, s = .ingest c ∧ l.queue = .dump :: queue ∧
        l'.acks = l.acks ++
          (l.waiting.map fun ack => { ack with data := l.directory.dump }).toList := by
  have hquiet : ∀ {acks : List Ack}, ∃ sent, acks = acks ++ sent ∧
      ∀ ack ∈ sent, ack.kind ≠ "dump-ack" :=
    fun {acks} => ⟨[], (List.append_nil acks).symm, by simp⟩
  cases h with
  | skipped hunread hidle hp => exact Or.inl hquiet
  | unknown hunread hidle hp hevent =>
      exact Or.inl ⟨_, rfl, by simp [Ack.ofPacket_eq, hevent]⟩
  | queued hunread hidle hp hevent hroom =>
      exact Or.inl ⟨_, rfl, by simp [Ack.ofPacket_eq, hevent]⟩
  | asked hunread hidle hp hevent hroom => exact Or.inl hquiet
  | received hqueue => exact Or.inl hquiet
  | answered hqueue => exact Or.inr ⟨_, _, rfl, hqueue, rfl⟩
  | performed => exact Or.inl hquiet

/-- An acknowledgement after others is one of them, or one of its own list, as far after them. -/
theorem getElem?_append_cases {acks sent : List Ack} (h : (acks ++ sent)[place]? = some ack) :
    acks[place]? = some ack ∨ acks.length ≤ place ∧ sent[place - acks.length]? = some ack := by
  rw [List.getElem?_append] at h
  split at h
  · exact Or.inl h
  · rename_i hlt
    exact Or.inr ⟨Nat.le_of_not_lt hlt, h⟩

theorem dumpShown_of_answered (hrun : (ofDatagrams datagrams d).run? steps = some l)
    {queue : List Event} (hqueue : l.queue = .dump :: queue) (c : Conditions)
    (hplace : l.acks.length ≤ place)
    (hack : (l.waiting.map fun ack => { ack with data := l.directory.dump }).toList[place -
      l.acks.length]? = some ack) :
    DumpShown datagrams d (steps ++ [.ingest c]) place ack := by
  obtain ⟨read, hread, hreached⟩ := reached hrun
  obtain ⟨before, datagram, p, rfl, hp, hevent, hwaiting, rfl, hacks⟩ := hreached.of_dump hqueue
  obtain ⟨hfirst, rfl⟩ : place = l.acks.length ∧
      { Ack.ofPacket p with data := l.directory.dump } = ack := by
    rw [hwaiting, Option.map_some, Option.toList_some, List.getElem?_singleton] at hack
    split at hack
    · exact ⟨by omega, Option.some.inj hack⟩
    · cases hack
  have hdocuments := hreached.documents
  refine .intro before datagram l.unread p steps c [] l ?_ (hfirst ▸ hacks.symm) hp
    (Packet.event?_eq_dump_iff.mp hevent) rfl hrun ?_ hreached.directory ?_
  · rw [hread, List.append_assoc, List.singleton_append]
  · rw [Ack.ofPacket_eq, hevent]
  · rw [hqueue] at hdocuments
    simpa [List.filterMap_cons, Event.document?, pushed?, hp, hevent] using hdocuments

theorem dumpShown_of_acks (hrun : (ofDatagrams datagrams d).run? steps = some l)
    (hack : l.acks[place]? = some ack) (hkind : ack.kind = "dump-ack") :
    DumpShown datagrams d steps place ack := by
  refine foldlM_induction (P := fun taken m => ∀ place ack, m.acks[place]? = some ack →
    ack.kind = "dump-ack" → DumpShown datagrams d taken place ack) hrun ?_ ?_ place ack hack hkind
  · intro place ack hack
    cases hack
  · intro taken m s m' hm hshown hs place ack hack hkind
    rcases (stepped hs).acks with ⟨sent, hacks, hother⟩ | ⟨c, queue, rfl, hqueue, hacks⟩
    · rw [hacks] at hack
      rcases getElem?_append_cases hack with hack | ⟨_, hack⟩
      · exact (hshown place ack hack hkind).append [s]
      · exact absurd hkind (hother ack (List.mem_of_getElem? hack))
    · rw [hacks] at hack
      rcases getElem?_append_cases hack with hack | ⟨hplace, hack⟩
      · exact (hshown place ack hack hkind).append _
      · exact dumpShown_of_answered hm hqueue c hplace hack

/-- A line goes on as long as anything is unread or queued. -/
theorem Reached.exists_step (h : Reached d read tasks l) (hleft : l.unread ≠ [] ∨ l.queue ≠ [])
    (c : Conditions) : (l.step? .read).isSome = true ∨ (l.step? (.ingest c)).isSome = true := by
  cases hqueue : l.queue with
  | cons event queue =>
      right
      cases event <;> simp [step?, ingest?, hqueue, Directory.ingest]
  | nil =>
      left
      have hidle : l.waiting = none := by
        cases h.awaits with
        | nothing hwaiting hnone hacks => exact hwaiting
        | dump hread hp hevent hwaiting hlast hqueued hacks => simp [hqueue] at hlast
      cases hunread : l.unread with
      | nil => simp [hunread, hqueue] at hleft
      | cons datagram unread =>
          simp only [step?, read?, hunread, hidle]
          split
          · rfl
          · split
            · rfl
            · rename_i event _
              rw [hqueue, if_neg (by decide)]
              cases event <;> rfl

/-- In every run of a line, in whatever order receiver and directory take their turns, and with
whatever else the directory does in between and whatever fails while it does: each
acknowledgement of a dump request shows the directory after the documents of the datagrams before
the request, and no others of the line; all documents are taken in, queued or unread, once each
and in their order; each packet that was read is acknowledged, but for a dump request that is
waited for; and the line goes on as long as anything is left. -/
theorem dump_shows_pushes_before (datagrams : List (List UInt8)) (d : Directory)
    (steps : List Step) (l : Line) (hrun : (ofDatagrams datagrams d).run? steps = some l) :
    (∀ place ack, l.acks[place]? = some ack → ack.kind = "dump-ack" →
        DumpShown datagrams d steps place ack) ∧
      ((ofDatagrams datagrams d).tasks steps).filterMap Task.document? ++
          l.queue.filterMap Event.document? ++ l.unread.filterMap pushed? =
        datagrams.filterMap pushed? ∧
      l.acks.length + l.waiting.toList.length + (l.unread.filterMap packet?).length =
        (datagrams.filterMap packet?).length ∧
      (l.unread ≠ [] ∨ l.queue ≠ [] → ∀ c,
        (l.step? .read).isSome = true ∨ (l.step? (.ingest c)).isSome = true) := by
  obtain ⟨read, hread, hreached⟩ := reached hrun
  refine ⟨fun _ _ hack hkind => dumpShown_of_acks hrun hack hkind, ?_, ?_, hreached.exists_step⟩
  · rw [hreached.documents, ← List.filterMap_append, ← hread]
  · rw [hread, List.filterMap_append, List.length_append]
    cases hreached.awaits with
    | nothing hwaiting hqueue hacks => simp [hwaiting, hacks]
    | dump hlast hp hevent hwaiting hqueue hqueued hacks => simp [hwaiting, hlast, hp, hacks]

/-- A push, a request for a dump, something that is no packet, and another push. -/
def dumpedDatagrams : List (List UInt8) :=
  [Packet.datagram { kind := "dom", data := "[\"a\"]" },
    Packet.datagram { kind := "dump", lastRefTime := 5 }, [0xFF],
    Packet.datagram { kind := "service", data := "[\"b\"]" }]

/-- The receiver is ahead of the directory as far as it can be, the sink fails on the first
document, and a refresh comes before the dump. -/
def dumpedSteps : List Step :=
  [.read, .read, .ingest { clock := 1, sinkFails := true },
    .perform (.refresh (fun _ => { reply := some "[\"c\"]", conditions := fun _ => { clock := 2 } })
      "c" ""),
    .ingest { clock := 3 }, .read, .read]

theorem dumpedDatagrams_shown :
    ∃ l, (ofDatagrams dumpedDatagrams {}).run? dumpedSteps = some l ∧
      l.acks.map (·.kind) = ["push-ack", "dump-ack", "push-ack"] ∧
      ∃ ack, l.acks[1]? = some ack ∧ DumpShown dumpedDatagrams {} dumpedSteps 1 ack := by
  have hkinds : ((ofDatagrams dumpedDatagrams {}).run? dumpedSteps).map
      (fun l => l.acks.map (·.kind)) = some ["push-ack", "dump-ack", "push-ack"] := by
    decide +kernel
  obtain ⟨l, hrun, hl⟩ := Option.map_eq_some_iff.mp hkinds
  have hsecond := congrArg (fun kinds : List String => kinds[1]?) hl
  obtain ⟨ack, hack, hkind⟩ : ∃ ack, l.acks[1]? = some ack ∧ ack.kind = "dump-ack" := by
    simpa using hsecond
  have hshown := dump_shows_pushes_before dumpedDatagrams {} dumpedSteps l hrun
  exact ⟨l, hrun, hl, ack, hack, hshown.1 1 ack hack hkind⟩

end Line

end ServiceDirectory.Push
