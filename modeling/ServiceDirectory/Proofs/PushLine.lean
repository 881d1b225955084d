import ServiceDirectory.Proofs.Codec
import ServiceDirectory.Proofs.Utf8
import ServiceDirectory.Push.Line

/-!
# Pushed documents arrive

A datagram that is the text of a packet is read as that packet, so its data comes
to the directory character by character as it was sent. Receiver and directory
may take turns in any order: the documents are taken in once each, in the order
of the datagrams, and a line that carries documents can always be drained.
-/

namespace ServiceDirectory.Push

/-! ## Packets -/

namespace Packet

/-- The bytes of a packet's text. -/
def datagram (p : Packet) : List UInt8 := Text.Utf8.encode p.print

theorem nodup_fields : fields.Nodup := by decide

theorem ofJson?_toJson (p : Packet) : ofJson? p.toJson = some p := by
  rw [ofJson?, toJson, Json.Record.ofJson?_record (by rfl) nodup_fields]
  simp [Json.Record.required, Json.Record.optional]

theorem spellable_toJson (p : Packet) : p.toJson.Spellable := by
  apply Json.spellable_record
  intro m hm
  simp only [List.mem_cons, List.not_mem_nil, or_false] at hm
  rcases hm with rfl | rfl | rfl
  · exact Json.spellable_ofString _
  · exact Json.spellable_ofString _
  · exact Json.spellable_ofNat _

/-- A packet is read back from its datagram. -/
theorem ofBytes?_datagram (p : Packet) : ofBytes? p.datagram = some p := by
  have hparse : Json.parseBytes? p.datagram = Json.parse? p.print := by
    rw [Json.parseBytes?, datagram, Text.Utf8.decode_encode]
    rfl
  rw [ofBytes?, hparse, print, Json.parse?_print p.spellable_toJson, Option.bind_some,
    ofJson?_toJson]

/-- A packet with a service document, in a datagram that is read as a whole. -/
structure IsPush (p : Packet) : Prop where
  kind : p.kind = "dom" ∨ p.kind = "service"
  fits : p.datagram.length ≤ maxDatagram

theorem IsPush.event? {p : Packet} (h : p.IsPush) : p.event? = some (.service p.data) := by
  rw [Packet.event?, request, if_pos h.kind]

end Packet

/-! ## The line -/

namespace Line

theorem read?_push {l : Line} {p : Packet} (hp : p.IsPush) {unread : List (List UInt8)}
    (hunread : l.unread = p.datagram :: unread) (hwaiting : l.waiting = none) :
    l.read? =
      if queueCapacity ≤ l.queue.length then none
      else some { l with
        unread
        queue := l.queue ++ [.service p.data]
        acks := l.acks ++ [Ack.ofPacket p] } := by
  have htake : Packet.ofBytes? (p.datagram.take maxDatagram) = some p := by
    rw [List.take_of_length_le hp.fits, p.ofBytes?_datagram]
  simp only [read?, hunread, hwaiting, htake, hp.event?]

theorem ingest?_service {l : Line} {text : String} {queue : List Event}
    (hqueue : l.queue = .service text :: queue) (c : Conditions) :
    l.ingest? c =
      some { l with queue, directory := (l.directory.receive ⟨text, c⟩).2 } := by
  simp only [ingest?, hqueue, Directory.ingest]

/-- The documents that are still under way, queued or unread, and nothing but documents. -/
structure Carries (l : Line) (texts : List String) : Prop where
  idle : l.waiting = none
  split : ∃ (queued : List String) (packets : List Packet),
    l.queue = queued.map .service ∧ l.unread = packets.map Packet.datagram ∧
      (∀ p ∈ packets, p.IsPush) ∧ queued ++ packets.map (·.data) = texts

variable {l l' : Line} {texts : List String}

/-- Reading a datagram only moves its document into the queue. -/
theorem Carries.read (h : l.Carries texts) (hread : l.read? = some l') :
    l'.Carries texts ∧ l'.directory = l.directory := by
  obtain ⟨queued, packets, hqueue, hunread, hpush, htexts⟩ := h.split
  cases packets with
  | nil =>
      rw [List.map_nil] at hunread
      simp [read?, hunread] at hread
  | cons p packets =>
      rw [read?_push (hpush p (by simp)) hunread h.idle] at hread
      split at hread
      · cases hread
      · obtain rfl := Option.some.inj hread
        refine ⟨⟨h.idle, queued ++ [p.data], packets, ?_, rfl, ?_, ?_⟩, rfl⟩
        · simp [hqueue]
        · exact fun q hq => hpush q (List.mem_cons_of_mem _ hq)
        · simpa using htexts

/-- The directory takes in the document that was sent first. -/
theorem Carries.ingest (h : l.Carries texts) {c : Conditions} (hingest : l.ingest? c = some l') :
    ∃ text rest, texts = text :: rest ∧ l'.Carries rest ∧
      l'.directory = (l.directory.receive ⟨text, c⟩).2 := by
  obtain ⟨queued, packets, hqueue, hunread, hpush, htexts⟩ := h.split
  cases queued with
  | nil =>
      rw [List.map_nil] at hqueue
      simp [ingest?, hqueue] at hingest
  | cons text queued =>
      rw [ingest?_service hqueue] at hingest
      obtain rfl := Option.some.inj hingest
      exact ⟨text, queued ++ packets.map (·.data), htexts.symm,
        ⟨h.idle, queued, packets, rfl, hunread, hpush, rfl⟩, rfl⟩

theorem carries_datagrams {packets : List Packet} (h : ∀ p ∈ packets, p.IsPush) (d : Directory) :
    ({ unread := packets.map Packet.datagram, directory := d } : Line).Carries
      (packets.map (·.data)) :=
  ⟨rfl, [], packets, rfl, rfl, h, rfl⟩

theorem Carries.drained (h : l.Carries []) : l.unread = [] ∧ l.queue = [] := by
  obtain ⟨queued, packets, hqueue, hunread, _, htexts⟩ := h.split
  obtain ⟨rfl, hpackets⟩ := List.append_eq_nil_iff.mp htexts
  obtain rfl := List.map_eq_nil_iff.mp hpackets
  exact ⟨hunread, hqueue⟩

/-! ## Turns -/

/-- A turn of the receiver, or one of the directory with what it meets. -/
def Step.ofTurn : Option Conditions → Step
  | none => .read
  | some c => .ingest c

/-- However receiver and directory take turns, the documents that are taken in are the first
ones, in their order, each with what the directory met at its turn. -/
theorem Carries.run (h : l.Carries texts) {turns : List (Option Conditions)}
    (hrun : l.run? (turns.map Step.ofTurn) = some l') :
    ∃ taken rest, texts = taken ++ rest ∧ taken.length = (turns.filterMap id).length ∧
      l'.Carries rest ∧
      l'.directory =
        l.directory.receiveAll (List.zipWith Arrival.mk taken (turns.filterMap id)) := by
  induction turns generalizing l texts with
  | nil =>
      obtain rfl := Option.some.inj hrun
      exact ⟨[], texts, rfl, rfl, h, rfl⟩
  | cons turn turns ih =>
      obtain ⟨l₁, hstep, hrest⟩ := Option.bind_eq_some_iff.mp hrun
      cases turn with
      | none =>
          obtain ⟨hcarries, hdirectory⟩ := h.read hstep
          obtain ⟨taken, rest, htexts, hlength, hdone, hall⟩ := ih hcarries hrest
          exact ⟨taken, rest, htexts, hlength, hdone, by rw [hall, hdirectory]; rfl⟩
      | some c =>
          obtain ⟨text, others, rfl, hcarries, hdirectory⟩ := h.ingest hstep
          obtain ⟨taken, rest, rfl, hlength, hdone, hall⟩ := ih hcarries hrest
          refine ⟨text :: taken, rest, rfl, ?_, hdone, ?_⟩
          · simpa using hlength
          · rw [hall, hdirectory]
            rfl

/-- A line with a document in its queue can have the directory take it in. -/
theorem Carries.exists_ingest {text : String} (h : l.Carries (text :: texts))
    (hqueue : l.queue ≠ []) (c : Conditions) :
    ∃ l', l.ingest? c = some l' ∧ l'.Carries texts := by
  obtain ⟨queued, packets, hq, _, _, _⟩ := h.split
  cases queued with
  | nil => exact absurd hq hqueue
  | cons t queued =>
      have hingest := ingest?_service hq c
      obtain ⟨_, _, heq, hcarries, _⟩ := h.ingest hingest
      obtain ⟨_, rfl⟩ := List.cons_eq_cons.mp heq
      exact ⟨_, hingest, hcarries⟩

/-- A line with an empty queue can have its next datagram read. -/
theorem Carries.exists_read {text : String} (h : l.Carries (text :: texts))
    (hqueue : l.queue = []) :
    ∃ l', l.read? = some l' ∧ l'.Carries (text :: texts) ∧ l'.queue ≠ [] := by
  obtain ⟨queued, packets, hq, hunread, hpush, htexts⟩ := h.split
  obtain rfl : queued = [] := List.map_eq_nil_iff.mp (hq.symm.trans hqueue)
  cases packets with
  | nil => cases htexts
  | cons p packets =>
      have hread := read?_push (hpush p (by simp)) hunread h.idle
      rw [hqueue, if_neg (by decide)] at hread
      exact ⟨_, hread, (h.read hread).1, by simp⟩

/-- Whatever a line carries can be taken in, with any conditions for its documents. -/
theorem Carries.exists_run (h : l.Carries texts) {conditions : List Conditions}
    (hlength : conditions.length = texts.length) :
    ∃ (turns : List (Option Conditions)) (l' : Line), turns.filterMap id = conditions ∧
      l.run? (turns.map Step.ofTurn) = some l' ∧ l'.Carries [] := by
  induction texts generalizing l conditions with
  | nil =>
      obtain rfl := List.length_eq_zero_iff.mp hlength
      exact ⟨[], l, rfl, rfl, h⟩
  | cons text texts ih =>
      obtain ⟨c, conditions, rfl⟩ := List.exists_cons_of_length_eq_add_one hlength
      have hlength' : conditions.length = texts.length := by simpa using hlength
      by_cases hqueue : l.queue = []
      · obtain ⟨l₁, hread, hcarries₁, hqueue₁⟩ := h.exists_read hqueue
        obtain ⟨l₂, hingest, hcarries₂⟩ := hcarries₁.exists_ingest hqueue₁ c
        obtain ⟨turns, l', hturns, hrun, hdone⟩ := ih hcarries₂ hlength'
        refine ⟨none :: some c :: turns, l', congrArg (c :: ·) hturns, ?_, hdone⟩
        exact Option.bind_eq_some_iff.mpr ⟨l₁, hread,
          Option.bind_eq_some_iff.mpr ⟨l₂, hingest, hrun⟩⟩
      · obtain ⟨l₁, hingest, hcarries₁⟩ := h.exists_ingest hqueue c
        obtain ⟨turns, l', hturns, hrun, hdone⟩ := ih hcarries₁ hlength'
        refine ⟨some c :: turns, l', congrArg (c :: ·) hturns, ?_, hdone⟩
        exact Option.bind_eq_some_iff.mpr ⟨l₁, hingest, hrun⟩

end Line

end ServiceDirectory.Push
