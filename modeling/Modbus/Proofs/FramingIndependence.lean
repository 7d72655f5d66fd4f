import Mathlib
import Modbus.Proofs.Delimiting
import Modbus.Proofs.Refusal
import Modbus.Proofs.SerialLink
import Modbus.Proofs.TcpLink

/-! A device is the same over both framings. A connection that `Serves` a unit
carries every read and write of values to the service and its answer back, so
a sequence of operations has the results that it has with nothing in between,
and the service sees the same calls. Serial lines and TCP links both serve. -/

namespace Modbus

open Master

variable {σ τ : Type}

/-- A ready connection brings every read and write of values for a unit to the service, gives back
what the service answers, and is ready again. -/
def Transport.Serves (transport : Transport τ) (service : Device.Service σ) (unit : UInt8)
    (device : τ → σ) (ready : τ → Prop) : Prop :=
  ∀ (t : τ) (request : Request) (response : Bytes) (s' : σ), ready t → request.OnValues →
    request.Fits → request.length ≤ maxPduLength →
    (Device.answer service unit request.pdu).run (device t) = (some response, s') →
    ∃ t', (transport.exchange unit request.pdu).run.run t = (.ok response, t') ∧ ready t' ∧
      device t' = s'

theorem Device.attached_serves (service : Service σ) (unit : UInt8) :
    (attached service).Serves service unit Prod.fst fun _ => True := by
  intro t request response s' _ _ _ _ hanswer
  obtain ⟨t', hexchange, hdevice⟩ := attached_answeredBy service t unit _ _ _ hanswer
  exact ⟨t', hexchange, trivial, hdevice⟩

/-- A serial line delimits what it carries by its fields. -/
theorem Serial.Link.transport_serves (station : Station σ) (hunit : station.unit ≠ broadcast)
    {delivery : Delivery} (opening : Opening) {timing : Timing}
    (hfaithful : delivery.Faithful timing.response) :
    (transport station delivery opening).Serves station.service station.unit Link.device
      fun link => link.Ready ∧ link.port.timing = timing := by
  rintro link request response s' ⟨hready, rfl⟩ hvalues hfits - hanswer
  have hrequest := Request.delimited hvalues hfits
  have hresponse := Device.answer_delimited hvalues hfits hanswer
  obtain ⟨after, hexchange, hafter, hdevice, htiming⟩ :=
    hready.exchange station opening hfaithful hunit hrequest hresponse hanswer
  exact ⟨after, hexchange, ⟨hafter, htiming⟩, hdevice⟩

theorem Tcp.Link.transport_serves (service : Device.Service σ) (unit : UInt8)
    {delivery : Delivery} (opening : Opening) {timeout : Nat}
    (hfaithful : delivery.Faithful timeout) :
    (transport service delivery opening).Serves service unit Link.device
      fun link => link.Ready ∧ link.client.timeout = timeout := by
  rintro link request response s' ⟨hready, rfl⟩ hvalues hfits hlen hanswer
  have hpdu : Device.Carried request.pdu := by
    refine ⟨Nat.succ_le_succ (Nat.zero_le _), ?_⟩
    rw [Request.length_pdu]
    exact hlen
  obtain ⟨response', s'', hanswer', hresponse⟩ :=
    Device.answer_carried service unit request.fields hvalues.toByte_lt link.device
  obtain ⟨hsame, -⟩ := Prod.mk.inj (hanswer.symm.trans hanswer')
  obtain rfl := Option.some.inj hsame
  obtain ⟨after, hexchange, hafter, hdevice, htimeout, -⟩ :=
    hready.exchange service opening hfaithful unit hpdu hresponse hanswer
  exact ⟨after, hexchange, ⟨hafter, htimeout⟩, hdevice⟩

namespace Master.Operation

theorem request_onValues {operation : Operation} (h : operation.OnValues) :
    operation.request.OnValues := by
  cases operation with
  | writeCoils unit address values | writeHoldingRegisters unit address values =>
    rcases values with _ | ⟨value, _ | ⟨next, rest⟩⟩ <;> trivial
  | writeFile | userFunction => exact h.elim
  | _ => trivial

/-- Over a connection that serves its unit, an operation has the result that it has with nothing
in between. One that is refused does not touch the connection. -/
theorem perform_eq_attached {transport : Transport τ} {service : Device.Service σ} {unit : UInt8}
    {device : τ → σ} {ready : τ → Prop} (hserves : transport.Serves service unit device ready)
    {operation : Operation} (hvalues : operation.OnValues) (hunit : operation.unit = unit) {t : τ}
    (ht : ready t) (pending : Option Bytes) :
    let performed := (operation.perform transport).run.run t
    let attached := (operation.perform (Device.attached service)).run.run (device t, pending)
    performed.1 = attached.1 ∧ device performed.2 = attached.2.1 ∧ ready performed.2 := by
  intro performed attached
  cases hrefusal : operation.refusal with
  | some cause =>
    simp only [performed, attached, perform_refused _ hrefusal]
    exact ⟨rfl, rfl, ht⟩
  | none =>
    have hadmissible := admissible_iff.mpr hrefusal
    have hrequest := request_onValues hvalues
    obtain ⟨-, hfits, hlow⟩ := request_readable hvalues hadmissible
    have hlen := length_request_le hadmissible
    have hanswer := Device.answer_run service unit operation.request.fields hlow (device t)
    obtain ⟨t', hexchange, ht', hdevice⟩ := hserves t _ _ _ ht hrequest hfits hlen hanswer
    obtain ⟨⟨s', pending'⟩, hattached, -, rfl⟩ := Device.attached_serves service unit
      (device t, pending) _ _ _ trivial hrequest hfits hlen hanswer
    simp only [performed, attached, perform_run _ hadmissible, hunit, hexchange, hattached]
    exact ⟨trivial, hdevice, ht'⟩

theorem performAll_cons (transport : Transport τ) (operation : Operation)
    (rest : List Operation) (t : τ) :
    (performAll transport (operation :: rest)).run t =
      let first := (operation.perform transport).run.run t
      let others := (performAll transport rest).run first.2
      (first.1 :: others.1, others.2) := by
  rw [performAll, List.mapM_cons, StateT.run_bind]
  rfl

theorem performAll_eq_attached {transport : Transport τ} {service : Device.Service σ}
    {unit : UInt8} {device : τ → σ} {ready : τ → Prop}
    (hserves : transport.Serves service unit device ready) {operations : List Operation}
    (h : ∀ operation ∈ operations, operation.OnValues ∧ operation.unit = unit) {t : τ}
    (ht : ready t) (pending : Option Bytes) :
    let performed := (performAll transport operations).run t
    let attached := (performAll (Device.attached service) operations).run (device t, pending)
    performed.1 = attached.1 ∧ device performed.2 = attached.2.1 ∧ ready performed.2 := by
  induction operations generalizing t pending with
  | nil => exact ⟨rfl, rfl, ht⟩
  | cons operation rest ih =>
    obtain ⟨hoperation, hrest⟩ := List.forall_mem_cons.mp h
    let first := (operation.perform (Device.attached service)).run.run (device t, pending)
    obtain ⟨hresult, hdevice, hready⟩ :=
      perform_eq_attached hserves hoperation.1 hoperation.2 ht pending
    obtain ⟨hresults, hafter, hready⟩ := ih hrest hready first.2.2
    rw [hdevice] at hresults hafter
    simp only [performAll_cons]
    exact ⟨congr (congrArg List.cons hresult) hresults, hafter, hready⟩

/-- A device is the same over both framings. Over lines and links that have been opened, and whose
bytes are cut in any way but neither lost nor late, every sequence of reads and writes for a unit
has the same results, refused arguments and exceptions included, and leaves the service in the same
state after the same calls. They are the results and the calls with nothing in between. -/
theorem performAll_serial_eq_tcp (service : Device.Service σ) {unit : UInt8}
    (hunit : unit ≠ Serial.broadcast) {serialDelivery tcpDelivery : Delivery}
    {serialDelay tcpDelay : Nat} {serial : Serial.Link (σ × List Device.Call)}
    {tcp : Tcp.Link (σ × List Device.Call)} {s : σ} (hserial : serial.device = (s, []))
    (htcp : tcp.device = (s, [])) (hserialDelay : serialDelay ≤ serial.port.timing.connect)
    (htcpDelay : tcpDelay ≤ tcp.client.timeout)
    (hfree : ∀ other ∈ tcp.server.connections, other.id ≠ tcp.server.registry.nextId)
    (hserialFaithful : serialDelivery.Faithful serial.port.timing.response)
    (htcpFaithful : tcpDelivery.Faithful tcp.client.timeout) {operations : List Operation}
    (h : ∀ operation ∈ operations, operation.OnValues ∧ operation.unit = unit) :
    let overSerial :=
      Serial.Link.transport ⟨unit, service.noted⟩ serialDelivery (.after serialDelay)
    let overTcp := Tcp.Link.transport service.noted tcpDelivery (.after tcpDelay)
    let attached := Device.attached service.noted
    ∃ serialConnected serialAfter tcpConnected tcpAfter results s' calls pending,
      overSerial.connect.run.run serial = (.ok (), serialConnected) ∧
      (performAll overSerial operations).run serialConnected = (results, serialAfter) ∧
      serialAfter.device = (s', calls) ∧
      overTcp.connect.run.run tcp = (.ok (), tcpConnected) ∧
      (performAll overTcp operations).run tcpConnected = (results, tcpAfter) ∧
      tcpAfter.device = (s', calls) ∧
      (performAll attached operations).run ((s, []), none) = (results, (s', calls), pending) := by
  intro overSerial overTcp attached
  obtain ⟨serialConnected, hserialConnect, hserialReady, hserialDevice, htiming⟩ :=
    Serial.Link.ready_connect ⟨unit, service.noted⟩ serialDelivery hserialDelay
  obtain ⟨tcpConnected, htcpConnect, htcpReady, htcpDevice, htimeout, -⟩ :=
    Tcp.Link.ready_connect service.noted tcpDelivery htcpDelay hfree
  have hserialServes := Serial.Link.transport_serves ⟨unit, service.noted⟩ hunit
    (.after serialDelay) hserialFaithful
  have htcpServes := Tcp.Link.transport_serves service.noted unit (.after tcpDelay) htcpFaithful
  obtain ⟨hserialResults, hserialAfter, -⟩ :=
    performAll_eq_attached hserialServes h ⟨hserialReady, htiming⟩ none
  obtain ⟨htcpResults, htcpAfter, -⟩ :=
    performAll_eq_attached htcpServes h ⟨htcpReady, htimeout⟩ none
  rw [hserialDevice, hserial] at hserialResults hserialAfter
  rw [htcpDevice, htcp] at htcpResults htcpAfter
  exact ⟨serialConnected, _, tcpConnected, _, _, _, _, _, hserialConnect,
    Prod.ext hserialResults rfl, hserialAfter, htcpConnect, Prod.ext htcpResults rfl, htcpAfter,
    rfl⟩

theorem performAll_serial_eq_tcp_nine_coils :
    let coils := [true, false, true, true, false, false, false, true, true]
    let service := Device.Handlers.service
      { readCoils := some Device.Memory.readCoils, writeCoils := some Device.Memory.writeCoils }
    let memory : Device.Memory := { coils := List.replicate 13 false }
    let operations := [writeCoils 17 3 coils, readCoils 17 3 9, readCoils 17 0 0,
      readCoils 17 10 9, readInputRegisters 17 0 1]
    let serial : Serial.Link (Device.Memory × List Device.Call) := { device := (memory, []) }
    let tcp : Tcp.Link (Device.Memory × List Device.Call) := { device := (memory, []) }
    let overSerial :=
      Serial.Link.transport ⟨17, service.noted⟩ (.prompt 256) (.after 0)
    let overTcp := Tcp.Link.transport service.noted (.prompt 260) (.after 0)
    let results := [.ok .done, .ok (.bits coils),
      .error (.argument (.quantityOutOfRange 0 2000)), .error (.exception .illegalDataAddress),
      .error (.exception .illegalFunction)]
    let calls : List Device.Call :=
      [.writeCoils 17 3 coils, .readCoils 17 3 9, .readCoils 17 10 9]
    ∃ serialConnected serialAfter tcpConnected tcpAfter,
      overSerial.connect.run.run serial = (.ok (), serialConnected) ∧
      (performAll overSerial operations).run serialConnected = (results, serialAfter) ∧
      serialAfter.device.2 = calls ∧
      overTcp.connect.run.run tcp = (.ok (), tcpConnected) ∧
      (performAll overTcp operations).run tcpConnected = (results, tcpAfter) ∧
      tcpAfter.device.2 = calls := by
  intro coils service memory operations serial tcp overSerial overTcp results calls
  have hoperations : ∀ operation ∈ operations, operation.OnValues ∧ operation.unit = 17 := by
    simp only [operations, List.forall_mem_cons]
    exact ⟨⟨trivial, rfl⟩, ⟨trivial, rfl⟩, ⟨trivial, rfl⟩, ⟨trivial, rfl⟩, ⟨trivial, rfl⟩, nofun⟩
  have hfree : ∀ other ∈ tcp.server.connections, other.id ≠ tcp.server.registry.nextId := by
    decide
  obtain ⟨serialConnected, serialAfter, tcpConnected, tcpAfter, _, s', calls', pending,
      hserialConnect, hserialRun, hserialAfter, htcpConnect, htcpRun, htcpAfter, hattached⟩ :=
    performAll_serial_eq_tcp service (by decide : 17 ≠ Serial.broadcast) (rfl : serial.device = _)
      (rfl : tcp.device = _) (Nat.zero_le _) (Nat.zero_le _) hfree
      (Delivery.prompt_faithful (by decide : 256 ≠ 0) _)
      (Delivery.prompt_faithful (by decide : 260 ≠ 0) _) hoperations
  have hdone : (performAll (Device.attached service.noted) operations).run ((memory, []), none) =
      (results, ({ coils := [false, false, false] ++ coils ++ [false] }, calls), none) := by
    change @Eq (List (Except Error Answer) × (Device.Memory × List Device.Call) × Option Bytes) _ _
    decide +kernel
  obtain ⟨hresults, hstate⟩ := Prod.mk.inj (hattached.symm.trans hdone)
  obtain ⟨-, hcalls⟩ := Prod.mk.inj (Prod.mk.inj hstate).1
  rw [hresults] at hserialRun htcpRun
  refine ⟨serialConnected, serialAfter, tcpConnected, tcpAfter, hserialConnect, hserialRun, ?_,
    htcpConnect, htcpRun, ?_⟩
  · rw [hserialAfter, hcalls]
  · rw [htcpAfter, hcalls]

end Master.Operation

end Modbus
