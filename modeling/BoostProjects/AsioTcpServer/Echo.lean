import BoostProjects.AsioTcpServer.Session
import BoostProjects.Library.Transition

/-!
# What the session echoes

The session re-arms its read before its write is done, and every write sends
from the same array `tx`. A read handler that runs while an earlier write still
has bytes to transmit overwrites those bytes, and starts a second write that may
overtake the first. `not_sent_prefix_received` is such a run.

Without that overlap the echo is faithful. While the socket is open the bytes
received are those sent, then those the last write still owes, then those no
handler has seen yet; `sent_prefix_received_of_noOverlap` reads the echo off that
balance.
-/

namespace BoostProjects.AsioTcpServer

open Boost Memory Transition

namespace Connection

/-- What the writes in flight have yet to transmit, in the order they were
started. -/
def owed (conn : Connection) : List Byte :=
  conn.io.writes.flatMap fun write =>
    conn.session.tx.slice write.sent (write.length - write.sent)

/-- The bytes a completed read has put into `rx` and no handler has seen. -/
def unread (conn : Connection) : List Byte :=
  conn.io.reads.flatMap fun read =>
    match read.result with
    | some (.success, n) => conn.session.rx.slice read.offset n
    | _ => []

/-- Between handlers `rx` counts as empty, and at most one read is in flight,
into the whole of it. -/
structure ReadsWhole (conn : Connection) : Prop where
  rxUsed : conn.session.rxUsed = 0
  single : conn.io.reads.length ≤ 1
  whole : ∀ read ∈ conn.io.reads, read.offset = 0 ∧ read.length = rxSize
  fits : ∀ read ∈ conn.io.reads, ∀ ec n, read.result = some (ec, n) → n ≤ rxSize

/-- The read handler may run: either it has nothing to echo, or no write on the
open socket has bytes left to transmit. -/
def NoOverlap (conn : Connection) : Event → Prop
  | .runRead op =>
    (conn.io.reads[op]?.bind fun read => read.result.map fun result => result.1.failed) =
        some true ∨
      (conn.session.socketOpen → ∀ write ∈ conn.io.writes, write.Spent)
  | _ => True

instance (conn : Connection) (event : Event) : Decidable (conn.NoOverlap event) := by
  cases event <;> unfold NoOverlap <;> infer_instance

/-- The balance of an open connection, and what is left of it once closed. -/
structure InOrder (conn : Connection) : Prop where
  spent : conn.session.socketOpen → ∀ write ∈ conn.io.writes.dropLast, write.Spent
  balance : conn.session.socketOpen →
    conn.io.sent ++ conn.owed ++ conn.unread = conn.io.received
  echoed : conn.io.sent <+: conn.io.received

/-! ### One read at a time -/

theorem ReadsWhole.accepted (rx : Cells Byte rxSize) (tx : Cells Byte txSize) :
    (accepted rx tx).ReadsWhole := by
  constructor <;> simp [Connection.accepted, start, doRead, asyncReadSome]

/-- The one read in flight, when there is one. -/
theorem ReadsWhole.split {conn : Connection} (h : conn.ReadsWhole) {before after : List ReadOp}
    {read : ReadOp} (hreads : conn.io.reads = before ++ read :: after) :
    before = [] ∧ after = [] ∧ read.offset = 0 ∧ read.length = rxSize := by
  have hsingle := h.single
  rw [hreads, List.length_append, List.length_cons] at hsingle
  have hwhole := h.whole read (by simp [hreads])
  exact ⟨List.length_eq_zero_iff.mp (by omega), List.length_eq_zero_iff.mp (by omega), hwhole⟩

theorem ReadsWhole.close {conn : Connection} (h : conn.ReadsWhole) : conn.close.ReadsWhole :=
  ⟨h.rxUsed, h.single, h.whole, h.fits⟩

/-- After a read handler the socket has been closed, or one new read is in
flight. -/
theorem readsWhole_readHandler {conn : Connection} (hrxUsed : conn.session.rxUsed = 0)
    (hreads : conn.io.reads = []) (ec : ErrorCode) (n : ℕ) :
    (conn.readHandler ec n).ReadsWhole := by
  rw [readHandler]
  split_ifs with hfailed
  · constructor <;> simp [Connection.close, hrxUsed, hreads]
  -- `onData` has set `rx_used` back to 0, so the next read takes the whole of `rx`.
  · constructor <;> simp [onData, doWrite, doRead, asyncWrite, asyncReadSome, hreads]

theorem ReadsWhole.step {conn next : Connection} {event : Event} (h : conn.ReadsWhole)
    (hstep : conn.step event = some next) : next.ReadsWhole := by
  cases event with
  | receive op bytes =>
    obtain ⟨before, read, after, hreads, -, -, -, hle, rfl⟩ := step_receive hstep
    obtain ⟨rfl, rfl, hoffset, hlength⟩ := h.split hreads
    -- What arrived is no longer than what was asked for, which is all of `rx`.
    refine ⟨h.rxUsed, by simp, by simp [hoffset, hlength], ?_⟩
    simp only [List.nil_append, List.mem_singleton, forall_eq, Option.some.injEq, Prod.mk.injEq]
    rintro ec n ⟨-, rfl⟩
    exact hlength ▸ hle
  | failRead op ec =>
    obtain ⟨before, read, after, hreads, -, -, rfl⟩ := step_failRead hstep
    obtain ⟨rfl, rfl, hoffset, hlength⟩ := h.split hreads
    refine ⟨h.rxUsed, by simp, by simp [hoffset, hlength], ?_⟩
    simp only [List.nil_append, List.mem_singleton, forall_eq, Option.some.injEq, Prod.mk.injEq]
    rintro ec n ⟨-, rfl⟩
    exact Nat.zero_le _
  | transmit op count =>
    obtain ⟨before, write, after, -, -, -, -, -, rfl⟩ := step_transmit hstep
    exact ⟨h.rxUsed, h.single, h.whole, h.fits⟩
  | failWrite op ec =>
    obtain ⟨before, write, after, -, -, -, -, rfl⟩ := step_failWrite hstep
    exact ⟨h.rxUsed, h.single, h.whole, h.fits⟩
  | runRead op =>
    obtain ⟨before, read, after, ec, n, hreads, -, -, rfl⟩ := step_runRead hstep
    obtain ⟨rfl, rfl, -, -⟩ := h.split hreads
    refine readsWhole_readHandler ?_ ?_ ec n
    · exact h.rxUsed
    · rfl
  | runWrite op =>
    obtain ⟨before, write, after, -, -, -, rfl⟩ := step_runWrite hstep
    rw [writeHandler]
    split_ifs
    · exact ReadsWhole.close ⟨h.rxUsed, h.single, h.whole, h.fits⟩
    · exact ⟨h.rxUsed, h.single, h.whole, h.fits⟩

/-! ### The balance -/

section Balance

variable {conn : Connection}

/-- A write with nothing left to transmit owes nothing. -/
theorem slice_of_spent (cells : Cells Byte txSize) {write : WriteOp} (h : write.Spent) :
    cells.slice write.sent (write.length - write.sent) = [] := by
  rw [WriteOp.Spent] at h
  rw [h, Nat.sub_self, Cells.slice_zero]

theorem owed_eq_nil_of_spent (h : ∀ write ∈ conn.io.writes, write.Spent) : conn.owed = [] :=
  List.flatMap_eq_nil_iff.mpr fun write hwrite => slice_of_spent _ (h write hwrite)

/-- Only the last write of an ordered connection can have bytes left. -/
theorem InOrder.after_eq_nil (h : conn.InOrder) (hopen : conn.session.socketOpen)
    {before after : List WriteOp} {write : WriteOp}
    (hwrites : conn.io.writes = before ++ write :: after) (hspent : ¬ write.Spent) :
    after = [] := by
  cases after with
  | nil => rfl
  | cons later after =>
    refine absurd (h.spent hopen write ?_) hspent
    rw [hwrites, List.dropLast_append_cons, List.dropLast_cons_cons]
    exact List.mem_append_right _ List.mem_cons_self

theorem InOrder.close (h : conn.io.sent <+: conn.io.received) : conn.close.InOrder :=
  ⟨by simp [Connection.close], by simp [Connection.close], h⟩

/-- A read handler with nothing to overwrite moves the bytes it was given from
the unread ones to the ones owed. -/
theorem InOrder.readHandler (hwhole : conn.ReadsWhole) (h : conn.InOrder) {read : ReadOp}
    (hreads : conn.io.reads = [read]) {ec : ErrorCode} {n : ℕ}
    (hresult : read.result = some (ec, n))
    (hquiet : ec.failed ∨ (conn.session.socketOpen → ∀ write ∈ conn.io.writes, write.Spent)) :
    (Connection.readHandler ec n { conn with io := { conn.io with reads := [] } }).InOrder := by
  rcases ec.failed_or_eq_success with hfailed | rfl
  -- An error closes the socket, and a closed connection only keeps its echo.
  · rw [readHandler_of_failed hfailed]
    exact InOrder.close h.echoed
  have hspent := hquiet.resolve_left Bool.false_ne_true
  have hmem : read ∈ conn.io.reads := by rw [hreads]; exact List.mem_singleton_self _
  have hoffset := (hwhole.whole read hmem).1
  have hn : n ≤ rxSize := hwhole.fits read hmem _ _ hresult
  have hunread : conn.unread = conn.session.rx.slice 0 n := by
    simp [unread, hreads, hresult, hoffset]
  have hlength : (conn.session.rx.slice 0 n).length = n :=
    Cells.length_slice _ (by omega)
  -- `memcpy` puts the bytes read where the new write will take them from.
  have hcopied : (conn.session.tx.store 0 (conn.session.rx.slice 0 n)).slice 0 n =
      conn.session.rx.slice 0 n := by
    have hstore := Cells.slice_store conn.session.tx 0 (conn.session.rx.slice 0 n)
      (by rw [hlength, Nat.zero_add]; exact hn)
    rwa [hlength] at hstore
  rw [readHandler_success]
  simp only [hwhole.rxUsed, Nat.zero_add]
  refine ⟨fun hopen => ?_, fun hopen => ?_, h.echoed⟩
  · rw [List.dropLast_concat]
    exact hspent hopen
  · -- The older writes owe nothing, so overwriting `tx` takes nothing from them.
    have hbalance := h.balance hopen
    rw [owed_eq_nil_of_spent (hspent hopen), hunread, List.append_nil] at hbalance
    have hold := List.flatMap_eq_nil_iff.mpr fun write hwrite =>
      slice_of_spent (conn.session.tx.store 0 (conn.session.rx.slice 0 n))
        (hspent hopen write hwrite)
    simp only [owed, unread, List.flatMap_append, List.flatMap_singleton, List.nil_append,
      Nat.sub_zero, List.append_nil, hold, hcopied]
    exact hbalance

theorem InOrder.step_receive {next : Connection} {op : ℕ} {bytes : List Byte}
    (hwhole : conn.ReadsWhole) (h : conn.InOrder)
    (hstep : conn.step (.receive op bytes) = some next) : next.InOrder := by
  obtain ⟨before, read, after, hreads, hopen, hnone, -, hle, rfl⟩ := Connection.step_receive hstep
  obtain ⟨rfl, rfl, hoffset, hlength⟩ := hwhole.split hreads
  -- The read was pending, so the bytes it brings are all that is unread.
  have hunread : conn.unread = [] := by simp [unread, hreads, hnone]
  have hstored : (conn.session.rx.store 0 bytes).slice 0 bytes.length = bytes :=
    Cells.slice_store _ 0 bytes (by rw [Nat.zero_add, ← hlength]; exact hle)
  refine ⟨h.spent, fun _ => ?_, h.echoed.trans (List.prefix_append _ _)⟩
  have hbalance := h.balance hopen
  rw [hunread, List.append_nil] at hbalance
  simp only [owed, unread, List.nil_append, List.flatMap_singleton, hoffset, hstored]
  rw [← hbalance, owed]

theorem InOrder.step_failRead {next : Connection} {op : ℕ} {ec : ErrorCode}
    (hwhole : conn.ReadsWhole) (h : conn.InOrder)
    (hstep : conn.step (.failRead op ec) = some next) : next.InOrder := by
  obtain ⟨before, read, after, hreads, hnone, hfailed, rfl⟩ := Connection.step_failRead hstep
  obtain ⟨rfl, rfl, -, -⟩ := hwhole.split hreads
  refine ⟨h.spent, fun hopen => ?_, h.echoed⟩
  have hbalance := h.balance hopen
  have hunread : conn.unread = [] := by simp [unread, hreads, hnone]
  rw [hunread] at hbalance
  -- A read that failed hands over no bytes.
  cases ec <;> simp_all [owed, unread, ErrorCode.failed]

theorem InOrder.step_transmit {next : Connection} {op count : ℕ} (h : conn.InOrder)
    (hstep : conn.step (.transmit op count) = some next) : next.InOrder := by
  obtain ⟨before, write, after, hwrites, hopen, -, hpos, hle, rfl⟩ := Connection.step_transmit hstep
  -- A write that transmits has bytes left, so it is the last one.
  have hspent : ¬ write.Spent := by rw [WriteOp.Spent]; omega
  obtain rfl := h.after_eq_nil hopen hwrites hspent
  have hbefore : ∀ earlier ∈ before, earlier.Spent := by
    simpa [hwrites] using h.spent hopen
  have hbalance := h.balance hopen
  -- The bytes just sent are the first that the last write owed.
  have hslice := Cells.slice_add conn.session.tx write.sent count
    (write.length - write.sent - count)
  rw [show count + (write.length - write.sent - count) = write.length - write.sent by omega]
    at hslice
  have howed : conn.owed = conn.session.tx.slice write.sent count ++
      conn.session.tx.slice (write.sent + count) (write.length - write.sent - count) := by
    rw [owed, hwrites, List.flatMap_append, List.flatMap_singleton, ← hslice,
      List.flatMap_eq_nil_iff.mpr fun w hw => slice_of_spent _ (hbefore w hw), List.nil_append]
  refine ⟨fun _ => by simpa using hbefore, fun _ => ?_, ?_⟩
  · simp only [owed, List.flatMap_append, List.flatMap_singleton]
    rw [List.flatMap_eq_nil_iff.mpr fun w hw => slice_of_spent _ (hbefore w hw), List.nil_append,
      ← hbalance, howed, unread, unread, Nat.sub_add_eq]
    simp only [List.append_assoc]
  · rw [← hbalance, howed]
    simp only [List.append_assoc]
    rw [← List.append_assoc]
    exact List.prefix_append _ _

theorem InOrder.step_failWrite {next : Connection} {op : ℕ} {ec : ErrorCode} (h : conn.InOrder)
    (hstep : conn.step (.failWrite op ec) = some next) : next.InOrder := by
  obtain ⟨before, write, after, hwrites, -, -, -, rfl⟩ := Connection.step_failWrite hstep
  refine ⟨fun hopen => ?_, fun hopen => ?_, h.echoed⟩
  -- The failed write stands where it stood, and owes what it owed.
  · have hspent := h.spent hopen
    rw [hwrites] at hspent
    cases after with
    | nil => simpa using hspent
    | cons later after =>
      simp only [List.dropLast_append_cons, List.dropLast_cons_cons] at hspent ⊢
      simpa [WriteOp.Spent, or_imp, forall_and] using hspent
  · have hbalance := h.balance hopen
    simpa [owed, unread, hwrites] using hbalance

theorem InOrder.step_runRead {next : Connection} {op : ℕ} (hwhole : conn.ReadsWhole)
    (h : conn.InOrder) (hquiet : conn.NoOverlap (.runRead op))
    (hstep : conn.step (.runRead op) = some next) : next.InOrder := by
  obtain ⟨before, read, after, ec, n, hreads, rfl, hresult, rfl⟩ := Connection.step_runRead hstep
  obtain ⟨rfl, rfl, -, -⟩ := hwhole.split hreads
  refine InOrder.readHandler hwhole h hreads hresult ?_
  simpa [NoOverlap, hreads, hresult] using hquiet

theorem InOrder.step_runWrite {next : Connection} {op : ℕ} (h : conn.InOrder)
    (hstep : conn.step (.runWrite op) = some next) : next.InOrder := by
  obtain ⟨before, write, after, hwrites, -, hdone, rfl⟩ := Connection.step_runWrite hstep
  rw [writeHandler]
  split_ifs with hfailed
  · exact InOrder.close h.echoed
  have hspent := hdone.resolve_right hfailed
  refine ⟨fun hopen => ?_, fun hopen => ?_, h.echoed⟩
  · -- The write that leaves may be the last, or one before it.
    have hall := h.spent hopen
    rw [hwrites] at hall
    cases after with
    | nil =>
      intro earlier hearlier
      rw [List.append_nil] at hearlier
      exact hall earlier (by simpa using List.mem_of_mem_dropLast hearlier)
    | cons later after =>
      simp only [List.dropLast_append_cons, List.dropLast_cons_cons] at hall ⊢
      intro other hother
      exact hall other (by simp only [List.mem_append, List.mem_cons] at hother ⊢; tauto)
  · have hbalance := h.balance hopen
    simpa [owed, unread, hwrites, slice_of_spent _ hspent] using hbalance

theorem InOrder.step {next : Connection} {event : Event} (hwhole : conn.ReadsWhole)
    (h : conn.InOrder) (hquiet : conn.NoOverlap event) (hstep : conn.step event = some next) :
    next.InOrder := by
  cases event with
  | receive op bytes => exact h.step_receive hwhole hstep
  | failRead op ec => exact h.step_failRead hwhole hstep
  | transmit op count => exact h.step_transmit hstep
  | failWrite op ec => exact h.step_failWrite hstep
  | runRead op => exact h.step_runRead hwhole hquiet hstep
  | runWrite op => exact h.step_runWrite hstep

end Balance

/-! ### Runs -/

theorem InOrder.accepted (rx : Cells Byte rxSize) (tx : Cells Byte txSize) :
    (accepted rx tx).InOrder := by
  constructor <;> simp [Connection.accepted, start, doRead, asyncReadSome, owed, unread]

theorem inOrder_of_obeys {rx : Cells Byte rxSize} {tx : Cells Byte txSize}
    {events : List Event} {conn : Connection}
    (hrun : run step (Connection.accepted rx tx) events = some conn)
    (hobeys : Obeys step NoOverlap (Connection.accepted rx tx) events) :
    conn.ReadsWhole ∧ conn.InOrder := by
  refine run_invariant_of_obeys (fun conn => conn.ReadsWhole ∧ conn.InOrder) ?_ hrun hobeys
    ⟨ReadsWhole.accepted rx tx, InOrder.accepted rx tx⟩
  intro before event next hbefore hquiet hstep
  exact ⟨hbefore.1.step hstep, hbefore.2.step hbefore.1 hquiet hstep⟩

/-- **The echo is faithful without overlap.** In a run whose read handlers each
find every earlier write transmitted, or have only an error to report, or run on
a closed socket, the bytes sent are at every moment a prefix of those received. -/
theorem sent_prefix_received_of_noOverlap (rx : Cells Byte rxSize) (tx : Cells Byte txSize)
    (events : List Event) (conn : Connection)
    (hrun : run step (Connection.accepted rx tx) events = some conn)
    (hobeys : Obeys step NoOverlap (Connection.accepted rx tx) events) :
    conn.io.sent <+: conn.io.received :=
  (inOrder_of_obeys hrun hobeys).2.echoed

/-- Two reads, the second handled once the first has been sent in two parts. -/
theorem sent_prefix_received_two_reads :
    ∃ conn, run step (Connection.accepted (fun _ => 0) (fun _ => 0))
        [.receive 0 [65, 66], .runRead 0, .transmit 0 1, .transmit 0 1, .receive 0 [67],
          .runRead 0, .runWrite 0] = some conn ∧
      conn.io.sent <+: conn.io.received := by
  obtain ⟨conn, hrun⟩ := Option.isSome_iff_exists.mp
    (show (run step (Connection.accepted (fun _ => 0) (fun _ => 0))
      [.receive 0 [65, 66], .runRead 0, .transmit 0 1, .transmit 0 1, .receive 0 [67],
        .runRead 0, .runWrite 0]).isSome by decide)
  exact ⟨conn, hrun, sent_prefix_received_of_noOverlap _ _ _ conn hrun (by decide)⟩

/-- **The echo is not faithful.** The second read handler runs while the write of
the first byte has sent nothing: the peer that sent `A`, `B` is answered `B`. -/
theorem not_sent_prefix_received :
    ¬ ∀ (rx : Cells Byte rxSize) (tx : Cells Byte txSize) (events : List Event)
        (conn : Connection), run step (Connection.accepted rx tx) events = some conn →
      conn.io.sent <+: conn.io.received := by
  intro hall
  obtain ⟨conn, hrun, hwire⟩ := Option.map_eq_some_iff.mp
    (show (run step (Connection.accepted (fun _ => 0) (fun _ => 0))
        [.receive 0 [65], .runRead 0, .receive 0 [66], .runRead 0, .transmit 0 1]).map
      (fun conn => (conn.io.sent, conn.io.received)) = some ([66], [65, 66]) by decide)
  obtain ⟨hsent, hreceived⟩ := Prod.mk.inj hwire
  have hprefix := hall _ _ _ conn hrun
  rw [hsent, hreceived] at hprefix
  exact absurd hprefix (by decide)

end Connection

end BoostProjects.AsioTcpServer
