import SaymaFirmware.Lemmas.HttpServing

/-!
# What HTTP sends

A queued byte is a reference until it is acknowledged. `file_buffer` is filled again for every chunk and for every error page, and the
header is freed when the file is closed; neither waits for acknowledgements. The body is right in every run in which these happen to
come when nothing refers to the memory any more.
-/

namespace SaymaFirmware

open HttpAux in
/-- In every run in which `file_buffer` is filled and a file is closed only when nothing unacknowledged refers to the memory, each byte
sent is the byte of the stream. -/
theorem http_body_intact (mem : HttpObj → Nat → UInt8) (s : HttpState)
    (hrun : Reaches httpStep (fun s a => reuseAcked s a = true) (httpInit mem) s) : BodyIntact s := by
  have h : Serving s := hrun.invariant Serving (serving_init mem) fun _ _ _ h hok hs => h.step hok hs
  exact h.body

/-- A file of two bytes; its name has no extension, so that it has no header. -/
def twoBytes : HttpResponse := .file 0 (bytesOf "/a") [97, 98]

/-- The file is opened and its first byte read, stored and queued. -/
def firstByte : List HttpAct := .accept twoBytes :: .server :: .server :: .fsRead 1 :: List.replicate 4 .server

/-- The first byte is sent and acknowledged before the second is read, and the second sent twice; then the file is closed. -/
def patientPeer : List HttpAct :=
  List.flatten [firstByte, [.send 1 0, .ack 1 1, .fsRead 1], List.replicate 4 .server, [.send 1 1, .send 1 1, .fsRead 1, .server]]

/-- The theorem at this run. -/
theorem http_body_patientPeer :
    ∃ s, Reaches httpStep (fun s a => reuseAcked s a = true) (httpInit fun _ _ => 0) s ∧
      s.sent = [⟨1, 0, 97⟩, ⟨1, 1, 98⟩, ⟨1, 1, 98⟩] ∧ BodyIntact s := by
  obtain ⟨s, hs, hp⟩ := exists_reaches_of_exec httpStep reuseAcked (httpInit fun _ _ => 0) patientPeer
    (fun s => decide (s.sent = [⟨1, 0, 97⟩, ⟨1, 1, 98⟩, ⟨1, 1, 98⟩])) (by decide +kernel)
  exact ⟨s, hs, of_decide_eq_true hp, http_body_intact _ s hs⟩

/-- The first byte is sent only when the second has been read over it. -/
theorem refilled_before_sent :
    ¬ ∀ (mem : HttpObj → Nat → UInt8) (s : HttpState), Reaches httpStep (AnyStep _ _) (httpInit mem) s → BodyIntact s := by
  intro h
  obtain ⟨s, hs, hp⟩ := exists_reaches_of_exec httpStep (fun _ _ => true) (httpInit fun _ _ => 0)
    (List.append firstByte [.fsRead 1, .server, .send 1 0])
    (fun s => decide (s.sent = [⟨1, 0, 98⟩] ∧ (s.conns 1).stream = [97, 98])) (by decide +kernel)
  obtain ⟨hsent, hstream⟩ := of_decide_eq_true hp
  have hbody := (h _ s (hs.mono fun _ _ _ => trivial)).sent ⟨1, 0, 98⟩ (by rw [hsent]; exact List.mem_singleton_self _)
  rw [hstream] at hbody
  exact absurd hbody (by decide)

end SaymaFirmware
