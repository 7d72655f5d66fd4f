import Modbus.Proofs.FrameGrammar
import Modbus.Proofs.Passes
import Modbus.Proofs.SessionRegistry
import Modbus.Proofs.TcpLink

/-! What holds of a connection after every read, whatever its stream is. The
loop over a read takes requests and foreign frames off what has been received
until it finds neither. What is still to come of a foreign frame is skipped only
while nothing is kept, so no pass forgets how much there is to skip, and both
what is kept and what is skipped are bounded. -/

namespace Modbus.Tcp

variable {σ : Type}

namespace Frame

section Fronts

variable {buffer : Bytes}

/-- A request has a header and a function code. -/
theorem eight_le_of_ofFront {frame : Frame} {length : Nat}
    (h : ofFront buffer = .ok (some (frame, length))) : 8 ≤ length := by
  obtain ⟨-, ⟨hpos, -⟩, rfl⟩ := ofFront_eq_some_iff.mp h
  omega

theorem bounds_of_foreign {protocol : UInt16}
    (h : ofFront buffer = .error (.protocolNotModbus protocol)) :
    7 ≤ buffer.length ∧ 6 ≤ foreignLength buffer ∧ foreignLength buffer ≤ 65541 := by
  cases front_cases buffer with
  | short hlen => rw [ofFront_short hlen] at h; cases h
  | @foreign t1 t0 p1 p0 l1 l0 unit rest hp =>
    have hfield := (word l1 l0).toNat_lt
    rw [foreignLength, announcedLength, Option.getD_some]
    simp only [List.length_cons]
    omega
  | invalid hp hl => rw [ofFront_invalid hp hl] at h; cases h
  | incomplete hp hl hlen => rw [ofFront_incomplete hp hl hlen] at h; cases h
  | complete hp hl hlen => rw [ofFront_complete hp hl hlen] at h; cases h

/-- All but one byte of the longest request may have come. -/
theorem length_le_of_ofFront_none (h : ofFront buffer = .ok none) : buffer.length ≤ 259 := by
  cases front_cases buffer with
  | short hlen => rw [headerLength] at hlen; omega
  | foreign hp => rw [ofFront_foreign hp] at h; cases h
  | invalid hp hl => rw [ofFront_invalid hp hl] at h; cases h
  | incomplete hp hl hlen => simp only [List.length_cons]; omega
  | complete hp hl hlen => rw [ofFront_complete hp hl hlen] at h; cases h

theorem ne_nil_of_ofFront {outcome : Except ProtocolError (Option (Frame × Nat))}
    (h : ofFront buffer = outcome) (hne : outcome ≠ .ok none) : buffer ≠ [] := by
  rintro rfl
  exact hne (h.symm.trans (ofFront_short (by decide)))

end Fronts

end Frame

namespace Session

/-! ## The loop over a read -/

/-- What the loop over a read begins with: of the bytes that have come, those that belong to a
foreign frame are dropped. -/
def feed (session : Session) (bytes : Bytes) : Session :=
  let skipped := min session.foreign bytes.length
  ⟨session.received ++ bytes.drop skipped, session.foreign - skipped⟩

/-- One pass of the loop: what it leaves behind a request or a foreign frame that it takes off. It
is the last one if there is neither. -/
def pass (session : Session) : Option Session :=
  match Frame.ofFront session.received with
  | .ok (some (_, length)) => some { session with received := session.received.drop length }
  | .error (.protocolNotModbus _) =>
    let length := foreignLength session.received
    some ⟨session.received.drop length, length - session.received.length⟩
  | .ok none | .error _ => none

theorem pass_eq_some {session next : Session} (h : session.pass = some next) :
    (∃ frame length, Frame.ofFront session.received = .ok (some (frame, length)) ∧
      next = ⟨session.received.drop length, session.foreign⟩) ∨
    ∃ protocol, Frame.ofFront session.received = .error (.protocolNotModbus protocol) ∧
      next = ⟨session.received.drop (foreignLength session.received),
        foreignLength session.received - session.received.length⟩ := by
  unfold pass at h
  split at h
  · next frame length hfront => exact .inl ⟨frame, length, hfront, (Option.some.inj h).symm⟩
  · next protocol hfront => exact .inr ⟨protocol, hfront, (Option.some.inj h).symm⟩
  · cases h
  · cases h

/-- Every pass but the last takes off the header of a frame at least. -/
theorem length_pass {session next : Session} (h : session.pass = some next) :
    next.received.length + 6 ≤ session.received.length := by
  obtain ⟨frame, length, hfront, rfl⟩ | ⟨protocol, hfront, rfl⟩ := pass_eq_some h
  · have hmin := Frame.eight_le_of_ofFront hfront
    have hmax := Frame.length_le_of_ofFront hfront
    simp only [List.length_drop]
    omega
  · obtain ⟨hlen, hmin, -⟩ := Frame.bounds_of_foreign hfront
    simp only [List.length_drop]
    omega

theorem takeRequests_invalid {buffer : Bytes} {foreign : Nat} {length : UInt16}
    (h : Frame.ofFront buffer = .error (.lengthField length)) :
    takeRequests buffer foreign = ([], ⟨[], foreign⟩) := by
  rw [takeRequests]
  split <;> simp_all

/-- What is left behind the last pass is kept, unless it starts with a header that no frame can
have. -/
theorem takeRequests_of_pass_none {session : Session} (h : session.pass = none) :
    (Frame.ofFront session.received = .ok none ∧
      (takeRequests session.received session.foreign).2 = session) ∨
    ∃ length, Frame.ofFront session.received = .error (.lengthField length) ∧
      (takeRequests session.received session.foreign).2 = ⟨[], session.foreign⟩ := by
  cases hfront : Frame.ofFront session.received with
  | ok found =>
    rcases found with _ | ⟨frame, length⟩
    · rw [takeRequests_none hfront]
      exact .inl ⟨rfl, rfl⟩
    · simp [pass, hfront] at h
  | error cause =>
    obtain ⟨protocol, rfl⟩ | ⟨length, rfl⟩ := Frame.cause_of_ofFront hfront
    · simp [pass, hfront] at h
    · rw [takeRequests_invalid hfront]
      exact .inr ⟨length, rfl, rfl⟩

/-- Where the passes lead is where the loop leads. -/
theorem takeRequests_passes {count : Nat} {first last : Session}
    (h : Passes pass count first last) :
    (takeRequests last.received last.foreign).2 =
      (takeRequests first.received first.foreign).2 := by
  refine h.keep (fun session => (takeRequests session.received session.foreign).2 =
    (takeRequests first.received first.foreign).2) (fun hpass hsame => ?_) rfl
  obtain ⟨frame, length, hfront, rfl⟩ | ⟨protocol, hfront, rfl⟩ := pass_eq_some hpass
  · rw [← hsame, takeRequests_some hfront]
  · rw [← hsame, takeRequests_protocol hfront]

/-! ## What all passes and reads keep -/

/-- Bytes to come are skipped only while none are kept, and no more of them than a foreign frame can
still announce behind its header. -/
structure Orderly (session : Session) : Prop where
  received_nil : session.foreign ≠ 0 → session.received = []
  foreign_le : session.foreign ≤ 65534

theorem orderly_new : Orderly {} := ⟨fun _ => rfl, Nat.zero_le _⟩

section Orderly

variable {session next : Session}

theorem Orderly.foreign_eq_zero (h : session.Orderly) (hne : session.received ≠ []) :
    session.foreign = 0 :=
  Decidable.byContradiction fun hforeign => hne (h.received_nil hforeign)

theorem Orderly.feed (h : session.Orderly) (bytes : Bytes) : (session.feed bytes).Orderly := by
  have hle := h.foreign_le
  refine ⟨fun hforeign => ?_, ?_⟩
  · -- something is left to skip, so all that has come was skipped, and nothing had been kept
    simp only [Session.feed] at hforeign ⊢
    rw [h.received_nil (by omega), List.nil_append]
    exact List.drop_of_length_le (by omega)
  · simp only [Session.feed]
    omega

theorem Orderly.pass (h : session.Orderly) (hpass : session.pass = some next) : next.Orderly := by
  obtain ⟨frame, length, hfront, rfl⟩ | ⟨protocol, hfront, rfl⟩ := pass_eq_some hpass
  · have hzero := h.foreign_eq_zero (Frame.ne_nil_of_ofFront hfront nofun)
    exact ⟨fun hforeign => absurd hzero hforeign, h.foreign_le⟩
  · obtain ⟨hlen, -, hmax⟩ := Frame.bounds_of_foreign hfront
    refine ⟨fun hforeign => List.drop_of_length_le ?_, ?_⟩
    · simp only at hforeign
      omega
    · simp only
      omega

theorem Orderly.passes (h : session.Orderly) {count : Nat} {last : Session}
    (hpasses : Passes Session.pass count session last) : last.Orderly :=
  hpasses.keep Session.Orderly (fun hpass hfirst => hfirst.pass hpass) h

/-- Behind an impossible header a session is as new: nothing was left to skip when it came up. -/
theorem Orderly.takeRequests_eq_new (h : session.Orderly) {count : Nat} {reached : Session}
    (hpasses : Passes Session.pass count session reached) {length : UInt16}
    (hfront : Frame.ofFront reached.received = .error (.lengthField length)) :
    (takeRequests session.received session.foreign).2 = {} := by
  have hzero := (h.passes hpasses).foreign_eq_zero (Frame.ne_nil_of_ofFront hfront nofun)
  rw [← takeRequests_passes hpasses, takeRequests_invalid hfront, hzero]

/-- A loop that starts in order ends with what its last pass has left, or as new. -/
theorem Orderly.exists_last (h : session.Orderly) :
    ∃ count last, Passes Session.pass count session last ∧ last.pass = none ∧
      6 * count + last.received.length ≤ session.received.length ∧
      (Frame.ofFront last.received = .ok none ∧
          (takeRequests session.received session.foreign).2 = last ∨
        (∃ length, Frame.ofFront last.received = .error (.lengthField length)) ∧
          (takeRequests session.received session.foreign).2 = {}) := by
  obtain ⟨count, last, hpasses, hlast⟩ :=
    Passes.exists_last (fun session => session.received.length) (by decide) length_pass session
  refine ⟨count, last, hpasses, hlast, hpasses.size_le _ length_pass, ?_⟩
  obtain ⟨hfront, hend⟩ | ⟨length, hfront, -⟩ := takeRequests_of_pass_none hlast
  · exact .inl ⟨hfront, (takeRequests_passes hpasses).symm.trans hend⟩
  · exact .inr ⟨⟨length, hfront⟩, h.takeRequests_eq_new hpasses hfront⟩

/-- The loop ends in order, and with little that is kept. -/
theorem Orderly.takeRequests (h : session.Orderly) :
    (takeRequests session.received session.foreign).2.Orderly ∧
      (takeRequests session.received session.foreign).2.received.length ≤ 259 := by
  obtain ⟨count, last, hpasses, -, -, ⟨hfront, hend⟩ | ⟨-, hend⟩⟩ := h.exists_last
  · rw [hend]
    exact ⟨h.passes hpasses, Frame.length_le_of_ofFront_none hfront⟩
  · rw [hend]
    exact ⟨orderly_new, Nat.zero_le _⟩

theorem Orderly.gatherAll (h : session.Orderly) (reads : List Bytes) :
    (session.gatherAll reads).2.Orderly := by
  induction reads generalizing session with
  | nil => exact h
  | cons bytes rest ih => exact ih (h.feed bytes).takeRequests.1

end Orderly

section Reads

variable {service : Device.Service σ} {acceptance : Acceptance} {session after : Session}
  {bytes : Bytes} {s : σ}

/-- A session that goes on keeps what a read leaves, whatever has been written. -/
theorem gather_of_next
    (h : ((session.next service acceptance bytes).run s).1.2 = some after) :
    after = (session.gather bytes).2 := by
  change ((replyAll service acceptance (session.gather bytes).1 >>= fun replied =>
    pure (replied.1, if replied.2 = .done then some (session.gather bytes).2 else none)).run
      s).1.2 = _ at h
  rw [StateT.run_bind] at h
  change (if _ = Written.done then some (session.gather bytes).2 else none) = _ at h
  split at h
  · exact (Option.some.inj h).symm
  · cases h

theorem run_cons (service : Device.Service σ) (acceptance : Acceptance) (session : Session)
    (bytes : Bytes) (rest : List Bytes) (s : σ) :
    ((session.run service acceptance (bytes :: rest)).run s).1.2 =
      let next := (session.next service acceptance bytes).run s
      next.1.2.bind fun after => ((after.run service acceptance rest).run next.2).1.2 := by
  rw [run, StateT.run_bind]
  rcases (session.next service acceptance bytes).run s with ⟨⟨sent, _ | after⟩, s'⟩ <;> rfl

/-- A session that goes on behind the last of some reads has gone on behind those before. -/
theorem gatherAll_of_run {reads : List Bytes}
    (h : ((session.run service acceptance (reads ++ [bytes])).run s).1.2 = some after) :
    ((session.run service acceptance reads).run s).1.2 = some (session.gatherAll reads).2 ∧
      after = ((session.gatherAll reads).2.gather bytes).2 := by
  induction reads generalizing session s with
  | nil =>
    rw [List.nil_append, run_cons] at h
    obtain ⟨next, hnext, hsame⟩ := Option.bind_eq_some_iff.mp h
    obtain rfl := Option.some.inj hsame
    exact ⟨rfl, gather_of_next hnext⟩
  | cons first rest ih =>
    rw [List.cons_append, run_cons] at h
    obtain ⟨next, hnext, hrest⟩ := Option.bind_eq_some_iff.mp h
    obtain rfl := gather_of_next hnext
    obtain ⟨hrun, hafter⟩ := ih hrest
    refine ⟨?_, hafter⟩
    rw [run_cons]
    exact Option.bind_eq_some_iff.mpr ⟨_, hnext, hrun⟩

end Reads

theorem phase_eq (session : Session) :
    session.phase = if session.received = [] then .idle else .reading := by
  rw [phase]
  cases session.received <;> rfl

/-- A server that goes on with a connection goes on with what a read leaves of the session, and
lists it as idle if nothing is kept. -/
theorem session?_receive (service : Device.Service σ) (acceptance : Acceptance) {server : Server}
    {id : UInt64} {before : Session} (hsession : server.session? id = some before) (bytes : Bytes)
    (s : σ) :
    let served := ((server.receive service acceptance id bytes).run s).1.2
    let after := (before.gather bytes).2
    (acceptance.TakesAll → (served.session? id).isSome) ∧
    ((served.session? id).isSome →
      served.session? id = some after ∧ served.registry.ids = server.registry.ids ∧
      ∀ entry ∈ served.registry.sessions, entry.id = id →
        entry.phase = if after.received = [] then .idle else .reading) := by
  intro served after
  let next := (before.next service acceptance bytes).run s
  have hserved : served = next.1.2.elim (server.finish id) (server.proceed id ·) := by
    simp only [served, Server.receive_eq_next service acceptance hsession]
    rfl
  cases hnext : next.1.2 with
  | none =>
    rw [hserved, hnext, Option.elim_none, Server.session?_finish]
    refine ⟨fun hwrite => ?_, nofun⟩
    simp only [next, next_eq_gather hwrite] at hnext
    cases hnext
  | some kept =>
    obtain rfl : kept = after := gather_of_next hnext
    rw [hserved, hnext, Option.elim_some,
      Server.session?_proceed (by rw [hsession]; rfl)]
    refine ⟨fun _ => rfl, fun _ => ⟨rfl, Registry.ids_setPhase, fun entry hentry hid => ?_⟩⟩
    rw [Registry.phase_of_mem_setPhase hentry hid, phase_eq]

/-- After every read that has been served, whatever has come: the loop over the read has ended,
after passes that each took a header at least; none of them forgot how much of a foreign frame there
still was to skip; an impossible header has left a session as new; little is kept, and nothing while
there is something to skip; and the connection is listed as idle if nothing is kept, and as reading
if not. Only an answer that cannot be sent ends the session. -/
theorem run_stays_orderly (service : Device.Service σ) (acceptance : Acceptance)
    (reads : List Bytes) (bytes : Bytes) (s : σ) :
    let served := ((run service acceptance {} (reads ++ [bytes])).run s).1.2
    (acceptance.TakesAll → served.isSome) ∧
    ∀ after, served = some after →
    ∃ before, ((run service acceptance {} reads).run s).1.2 = some before ∧
      let start := before.feed bytes
      (∀ first second : Session, first.pass = some second →
        second.received.length + 6 ≤ first.received.length) ∧
      (∃ count last, Passes pass count start last ∧ last.pass = none ∧
        6 * count + last.received.length ≤ start.received.length ∧
        (Frame.ofFront last.received = .ok none ∧ after = last ∨
          (∃ length, Frame.ofFront last.received = .error (.lengthField length)) ∧ after = {})) ∧
      (∀ count reached, Passes pass count start reached →
        (∀ protocol, Frame.ofFront reached.received = .error (.protocolNotModbus protocol) →
          reached.foreign = 0) ∧
        ∀ length, Frame.ofFront reached.received = .error (.lengthField length) → after = {}) ∧
      after.received.length ≤ 259 ∧ after.foreign ≤ 65534 ∧
      (0 < after.foreign → after.received = []) ∧
      ∀ (server : Server) (id : UInt64) (s' : σ), server.session? id = some before →
        let served := ((server.receive service acceptance id bytes).run s').1.2
        (acceptance.TakesAll → (served.session? id).isSome) ∧
        ((served.session? id).isSome →
          served.session? id = some after ∧ served.registry.ids = server.registry.ids ∧
          ∀ entry ∈ served.registry.sessions, entry.id = id →
            entry.phase = if after.received = [] then .idle else .reading) := by
  refine ⟨fun hwrite => ?_, fun after hserved => ?_⟩
  · rw [run_eq_gatherAll hwrite]
    rfl
  obtain ⟨hbefore, hafter⟩ := gatherAll_of_run hserved
  refine ⟨_, hbefore, ?_⟩
  obtain ⟨start, hstart⟩ :
      ∃ start, start = (gatherAll {} reads).2.feed bytes := ⟨_, rfl⟩
  have horderly : start.Orderly := by
    rw [hstart]
    exact (orderly_new.gatherAll reads).feed bytes
  have hloop : after = (takeRequests start.received start.foreign).2 := by
    rw [hafter, hstart]
    rfl
  obtain ⟨hrest, hkept⟩ := horderly.takeRequests
  have hend := horderly.exists_last
  rw [← hloop] at hrest hkept hend
  rw [← hstart]
  refine ⟨fun _ _ => length_pass, hend, fun count reached hpasses => ⟨fun protocol hfront => ?_,
    fun length hfront => ?_⟩, hkept, hrest.foreign_le,
    fun hforeign => hrest.received_nil (Nat.pos_iff_ne_zero.mp hforeign),
    fun server id s' hsession => ?_⟩
  · exact (horderly.passes hpasses).foreign_eq_zero (Frame.ne_nil_of_ofFront hfront nofun)
  · rw [hloop]
    exact horderly.takeRequests_eq_new hpasses hfront
  · rw [hafter]
    exact session?_receive service acceptance hsession bytes s'

/-- A connection on which a foreign frame goes on in a second read, with the beginning of a request
behind it. -/
theorem run_stays_orderly_foreign_in_parts :
    let reads : List Bytes := [[0, 1, 0, 7, 0, 10, 1, 3]]
    let bytes : Bytes := [0, 6, 0, 0, 0, 6, 1, 3, 0, 3, 0, 0, 0, 6, 1]
    let server : Server :=
      { registry := { nextId := 1, entries := [⟨0, "client", .idle, 0⟩] }
        connections := [{ id := 0, session := ⟨[], 8⟩, waitingSince := 0 }] }
    let served := ((server.receive (σ := Unit) Device.Service.bare .all 0 bytes).run ()).1.2
    ((run (σ := Unit) Device.Service.bare .all {} reads).run ()).1.2 = some ⟨[], 8⟩ ∧
      served.session? 0 = some ⟨[0, 3, 0, 0, 0, 6, 1], 0⟩ ∧
      ∀ entry ∈ served.registry.sessions, entry.id = 0 → entry.phase = .reading := by
  intro reads bytes server served
  have hfirst : gatherAll {} reads = ([], ⟨[], 8⟩) := by decide +kernel
  have hall : gatherAll {} (reads ++ [bytes]) = ([], ⟨[0, 3, 0, 0, 0, 6, 1], 0⟩) := by
    decide +kernel
  have hrun (reads : List Bytes) :
      ((run (σ := Unit) Device.Service.bare .all {} reads).run ()).1.2 =
        some (gatherAll {} reads).2 := by
    rw [run_eq_gatherAll Acceptance.takesAll_all]
    rfl
  obtain ⟨before, hbefore, -, -, -, -, -, -, hserver⟩ :=
    (run_stays_orderly (σ := Unit) Device.Service.bare .all reads bytes ()).2 _ (hrun _)
  rw [hrun, hfirst] at hbefore
  obtain rfl := Option.some.inj hbefore
  obtain ⟨hopen, hgoes⟩ := hserver server 0 () rfl
  obtain ⟨hsession, -, hphase⟩ := hgoes (hopen Acceptance.takesAll_all)
  rw [hall] at hsession hphase
  exact ⟨(hrun reads).trans (by rw [hfirst]), hsession, hphase⟩

end Session

end Modbus.Tcp
