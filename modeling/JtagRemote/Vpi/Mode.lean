import JtagRemote.Mpsse.Mode
import JtagRemote.Vpi.Execute
import JtagRemote.Drivers

/-!
# The VPI server and the mode of the adapter

A client that hangs up has the adapter reset, and nothing sets it up again.
-/

namespace JtagRemote.Vpi

open JtagVpiCommand Mpsse

variable {usb : Usb} {fuel freq : Nat} {c₀ c : Jtag Mpsse} {s : Vpi Mpsse} {left owed : Bool}

/-! ## What a record does to the buffer of the driver -/

inductive Effect where
  -- leaves commands in the buffer
  | queues
  -- sends all that was there
  | sends
  | nothing
  deriving DecidableEq, Repr

def scanEffect (n : Nat) (flip : Bool) : Effect := if Fits n flip then .sends else .nothing

def effect (b : List Byte) : Effect :=
  if commandOf b = CMD_RESET.value then .queues
  else if commandOf b = CMD_TMS_SEQ.value then if bitsAsked b = 0 then .nothing else .queues
  else if commandOf b = CMD_SCAN_CHAIN.value then scanEffect (bitsAsked b) false
  else if commandOf b = CMD_SCAN_CHAIN_FLIP_TMS.value then scanEffect (bitsAsked b) true
  else .nothing

/-- Whether commands are left in the buffer after a record. -/
def Effect.leaves : Effect → Bool → Bool
  | .queues, _ => true
  | .sends, _ => false
  | .nothing, owed => owed

def owedAfter (owed : Bool) (bs : List (List Byte)) : Bool := bs.foldl (fun owed b => (effect b).leaves owed) owed

/-! ## Runs -/

def hangsUp (s : Vpi Mpsse) (net : Net) : Bool := decide (s.sock.client_fd ≥ 0) && net.recv == .closed

/-- A client only hangs up when no commands are left in the buffer, and once one has, no record drives the
adapter. -/
def Allowed (d : driver Mpsse) (left owed : Bool) (s : Vpi Mpsse) (net : Net) : Prop :=
  (hangsUp s net = true → owed = false) ∧ (left = true → ∀ b ∈ executed d s net, effect b = .nothing)

/-- The states of the runs with such steps only: `left` once a client hung up, `owed` while commands are left. -/
inductive Run (d : driver Mpsse) (c : Jtag Mpsse) : Bool → Bool → Vpi Mpsse → Prop
  | boot : Run d c false false (bootVpi c)
  | tick {left owed : Bool} {s t : Vpi Mpsse} {net : Net} : Run d c left owed s → Allowed d left owed s net →
      jtag_vpi_tick d net s = .ok () t → Run d c (left || hangsUp s net) (owedAfter owed (executed d s net)) t

/-- All transfers since `c₀` were made in MPSSE mode. -/
def DrivenInMode (c₀ : Jtag Mpsse) (p : Port) : Prop :=
  ∃ l, p.transfers = c₀.dev.port.transfers ++ l ∧ ∀ x ∈ l, x.1 = BITMODE_MPSSE

theorem DrivenInMode.then {p q : Port} (h : DrivenInMode c₀ p) (hmode : p.bitmode = BITMODE_MPSSE)
    (hq : p.InMode q) : DrivenInMode c₀ q := by
  obtain ⟨l, hl, hall⟩ := h
  obtain ⟨m, hm, hall'⟩ := hq.transfers
  refine ⟨l ++ m, by rw [hm, hl, List.append_assoc], ?_⟩
  intro x hx
  rcases List.mem_append.mp hx with hx | hx
  · exact hall x hx
  · exact (hall' x hx).trans hmode

/-! ## The set-up -/

theorem mpsse_init_mode {ty : AdapterTypes} (h : mpsse_init usb freq ty c₀ = .ok true c) :
    DrivenInMode c₀ c.dev.port ∧ c.dev.port.bitmode = BITMODE_MPSSE ∧ c.dev.mpsse_buffer = [] := by
  unfold mpsse_init at h
  split at h
  · obtain ⟨_, c₁, hsets, h₁⟩ := bind_eq_ok.mp h
    obtain ⟨_, c₂, hreset, h₂⟩ := bind_eq_ok.mp h₁
    obtain ⟨_, c₃, hmpsse, h₃⟩ := bind_eq_ok.mp h₂
    obtain ⟨ok, c₄, hsetup, h₄⟩ := bind_eq_ok.mp h₃
    obtain rfl : c₁ = c₀ := (assert_guards usb.sets_up c₀).ensures _ _ hsets
    cases hreset
    cases hmpsse
    have hstart : DrivenInMode c₁ ({ c₁.dev.port with bitmode := BITMODE_MPSSE } : Port) :=
      ⟨[], (List.append_nil _).symm, by simp⟩
    have hin₄ : Port.InMode { c₁.dev.port with bitmode := BITMODE_MPSSE } c₄.dev.port :=
      (port_in_mode (ftdi_write_retry_in_mode _)).ensures _ _ _ hsetup
    split at h₄
    · obtain ⟨_, c₅, hinit, h₅⟩ := bind_eq_ok.mp h₄
      cases hinit
      have hin₅ := (set_tck_freq_in_mode freq).ensures _ _ _ h₅
      refine ⟨(hstart.then rfl hin₄).then hin₄.bitmode hin₅, hin₅.bitmode.trans hin₄.bitmode, ?_⟩
      exact set_tck_freq_empties freq _ _ _ h₅ rfl
    · cases h₄
  · cases h

/-! ## A record -/

/-- The call transfers in the mode that it finds. -/
def VpiSameMode (s t : Vpi Mpsse) : Prop := SameMode s.jtag t.jtag

instance : IsPreorder (Vpi Mpsse) VpiSameMode where
  refl s := .refl s.jtag.dev.port
  trans _ _ _ := .trans

/-- The driver is as it was. -/
def SameDev (s t : Vpi Mpsse) : Prop := t.jtag.dev = s.jtag.dev

instance : IsPreorder (Vpi Mpsse) SameDev where
  refl _ := rfl
  trans _ _ _ h h' := h'.trans h

section

variable {R : Vpi Mpsse → Vpi Mpsse → Prop} [IsPreorder (Vpi Mpsse) R] {d : driver Mpsse}

/-- What a record does to the driver is what its call does. -/
theorem scanWith_within (hjtag : ∀ s t, s.jtag = t.jtag → R s t) {b : List Byte} {flip : Bool}
    (h : Within R (vpi_jtag
      (jtag_scan_chain d (outOf b) (List.replicate SIZEOF_BUFFER 0) (bitsAsked b) flip true))) :
    Within R (scanWith d b flip) := by
  refine h.bind fun r => Within.bind (?_ : Within R (vpi_set_buffer_in r.2)) fun _ => .get_bind fun s => ?_
  · intro s
    unfold vpi_set_buffer_in memcpy
    rw [bind_of_ok (get_apply s)]
    split
    · exact hjtag _ _ rfl
    · exact hjtag _ _ rfl
  · have hwrite : Within R (vpi_sock (write_full s.jtag_vpi_buffer)) :=
      within_focus (S := fun _ _ => True) (fun _ => trivial) fun s t _ => hjtag _ _ rfl
    exact hwrite.bind fun _ => within_pure _

end

theorem vpi_jtag_in_mode {α : Type} {p : EStateM Fault (Jtag Mpsse) α} (h : Within SameMode p) :
    Within VpiSameMode (vpi_jtag p) := within_focus h fun _ _ ht => ht

theorem perform_in_mode (b : List Byte) : Within VpiSameMode (perform (mpsse_driver usb fuel freq) b) := by
  have hjtag : ∀ s t : Vpi Mpsse, s.jtag = t.jtag → VpiSameMode s t := by
    intro s t hst
    rw [VpiSameMode, hst]
    exact .refl _
  have hscan : ∀ flip, Within VpiSameMode (scanWith (mpsse_driver usb fuel freq) b flip) := fun flip =>
    scanWith_within hjtag (vpi_jtag_in_mode (jtag_scan_chain_in_mode _ _ _ _ _))
  refine within_ite ((vpi_jtag_in_mode (jtag_tms_seq_in_mode _ _)).bind fun _ => within_pure _) (within_ite ?_ ?_)
  · exact (vpi_jtag_in_mode (jtag_tms_seq_in_mode _ _)).bind fun _ => within_pure _
  · exact within_ite (hscan false) (within_ite (hscan true) (within_pure _))

theorem scan_refused {n : Nat} {flip : Bool} (hfits : ¬ Fits n flip) (data recv : List Byte) :
    Within SameDev (vpi_jtag (jtag_scan_chain (mpsse_driver usb fuel freq) data recv n flip true)) := by
  intro s
  unfold vpi_jtag focus
  rw [jtag_scan_chain_refused hfits]
  rfl

/-- A record that does nothing leaves the driver alone. -/
theorem perform_nothing {b : List Byte} (h : effect b = .nothing) :
    Within SameDev (perform (mpsse_driver usb fuel freq) b) := by
  have hjtag : ∀ s t : Vpi Mpsse, s.jtag = t.jtag → SameDev s t := by
    intro s t hst
    rw [SameDev, hst]
  have hscan : ∀ flip, scanEffect (bitsAsked b) flip = .nothing →
      Within SameDev (scanWith (mpsse_driver usb fuel freq) b flip) := by
    intro flip hflip
    refine scanWith_within hjtag (scan_refused (fun hfits => ?_) _ _)
    rw [scanEffect, if_pos hfits] at hflip
    cases hflip
  unfold perform
  unfold effect at h
  split
  · rename_i hcmd
    rw [if_pos hcmd] at h
    cases h
  rename_i hreset
  rw [if_neg hreset] at h
  split
  · rename_i hcmd
    rw [if_pos hcmd] at h
    split at h
    · rename_i hzero
      rw [hzero]
      exact Within.bind (fun s => rfl) fun _ => within_pure _
    · cases h
  rename_i hseq
  rw [if_neg hseq] at h
  split
  · rename_i hcmd
    rw [if_pos hcmd] at h
    exact hscan false h
  rename_i hplain
  rw [if_neg hplain] at h
  split
  · rename_i hcmd
    rw [if_pos hcmd] at h
    exact hscan true h
  · exact within_pure _

theorem scanWith_empties {b : List Byte} {flip : Bool} (hfits : Fits (bitsAsked b) flip) (s : Vpi Mpsse) :
    Ensures (scanWith (mpsse_driver usb fuel freq) b flip) s fun _ t => t.jtag.dev.mpsse_buffer = [] := by
  refine Ensures.bind (Ensures.focus (jtag_scan_chain_empties _ _ hfits s.jtag)) ?_
  rintro r _ ⟨c, hempty, rfl⟩
  have hset : Keeps (fun s : Vpi Mpsse => s.jtag) (vpi_set_buffer_in r.2) := by
    intro t
    unfold vpi_set_buffer_in
    refine Ensures.get_bind (Ensures.bind (memcpy_spec _ _ _ t) ?_)
    rintro _ _ ⟨rfl, -, -⟩ _ _ hu
    cases hu
    rfl
  refine Ensures.bind (hset _) ?_
  intro _ t ht
  have hsock : ∀ b, Keeps (fun s : Vpi Mpsse => s.jtag) (vpi_sock (write_full b)) := fun _ => keeps_focus fun _ _ => rfl
  have hwrite : Keeps (fun s : Vpi Mpsse => s.jtag) (do
      let s ← get
      let _ ← vpi_sock (write_full s.jtag_vpi_buffer)
      pure () : VpiProg Mpsse Unit) := .get_bind fun _ => (hsock _).bind fun _ => keeps_pure _
  refine (hwrite t).mono fun _ u hu => ?_
  have hjtag : u.jtag = c := hu.trans ht
  rw [hjtag, hempty]

theorem perform_sends {b : List Byte} (h : effect b = .sends) (s : Vpi Mpsse) :
    Ensures (perform (mpsse_driver usb fuel freq) b) s fun _ t => t.jtag.dev.mpsse_buffer = [] := by
  have hscan : ∀ flip, scanEffect (bitsAsked b) flip = .sends → Fits (bitsAsked b) flip := by
    intro flip hflip
    by_contra hnot
    rw [scanEffect, if_neg hnot] at hflip
    cases hflip
  unfold effect at h
  unfold perform
  split at h
  · cases h
  rename_i hreset
  rw [if_neg hreset]
  split at h
  · split at h <;> cases h
  rename_i hseq
  rw [if_neg hseq]
  split at h
  · rename_i hcmd
    rw [if_pos hcmd]
    exact scanWith_empties (hscan false h) s
  rename_i hplain
  rw [if_neg hplain]
  split at h
  · rename_i hcmd
    rw [if_pos hcmd]
    exact scanWith_empties (hscan true h) s
  · cases h

/-! ## A tick -/

/-- The mode as long as no client hung up, and the buffer as long as no commands are left in it. -/
structure Set (c₀ : Jtag Mpsse) (left owed : Bool) (c : Jtag Mpsse) : Prop where
  driven : DrivenInMode c₀ c.dev.port
  mode : left = false → c.dev.port.bitmode = BITMODE_MPSSE
  empty : owed = false → c.dev.mpsse_buffer = []

theorem perform_set {b : List Byte} (h : Set c₀ left owed s.jtag) (hleft : left = true → effect b = .nothing) :
    DrivenInMode c₀ (finalState (perform (mpsse_driver usb fuel freq) b s)).jtag.dev.port ∧
    Ensures (perform (mpsse_driver usb fuel freq) b) s fun _ t => Set c₀ left (owedAfter owed [b]) t.jtag := by
  have hmode : VpiSameMode s (finalState (perform (mpsse_driver usb fuel freq) b s)) := perform_in_mode b s
  have hdriven : DrivenInMode c₀ (finalState (perform (mpsse_driver usb fuel freq) b s)).jtag.dev.port := by
    cases hl : left with
    | false => exact h.driven.then (h.mode hl) hmode
    | true =>
      have hdev : SameDev s (finalState (perform (mpsse_driver usb fuel freq) b s)) := perform_nothing (hleft hl) s
      rw [hdev]
      exact h.driven
  refine ⟨hdriven, ?_⟩
  intro _ t ht
  rw [ht] at hmode hdriven
  refine ⟨hdriven, fun hl => hmode.bitmode.trans (h.mode hl), fun howed => ?_⟩
  have howed' : (effect b).leaves owed = false := howed
  cases heffect : effect b with
  | queues =>
    rw [heffect] at howed'
    cases howed'
  | sends => exact perform_sends heffect s () t ht
  | nothing =>
    have hdev : SameDev s (finalState (perform (mpsse_driver usb fuel freq) b s)) := perform_nothing heffect s
    rw [ht] at hdev
    rw [heffect] at howed'
    have hdev' : t.jtag.dev = s.jtag.dev := hdev
    rw [hdev']
    exact h.empty howed'

theorem tick_set {p : List Byte} (hp : Waits s p) (h : Set c₀ left owed s.jtag) {net : Net}
    (hnet : Allowed (mpsse_driver usb fuel freq) left owed s net) :
    DrivenInMode c₀ (finalState (jtag_vpi_tick (mpsse_driver usb fuel freq) net s)).jtag.dev.port ∧
    Ensures (jtag_vpi_tick (mpsse_driver usb fuel freq) net) s fun _ t =>
      Set c₀ (left || hangsUp s net) (owedAfter owed (executed (mpsse_driver usb fuel freq) s net)) t.jtag := by
  by_cases hfd : s.sock.client_fd ≥ 0
  · by_cases hclosed : net.recv = .closed
    · -- the mode is left, with nothing in the buffer
      have hhangs : hangsUp s net = true := by simp [hangsUp, hfd, hclosed]
      have hrun : jtag_vpi_tick (mpsse_driver usb fuel freq) net s = .ok () { s with
          jtag := { s.jtag with dev := { s.jtag.dev with port := { s.jtag.dev.port with bitmode := BITMODE_RESET } } }
          sock := { s.sock with client_fd := -1 } } := by
        have hnot : s.jtag_vpi_recv ≠ SIZEOF_CMD := by
          rw [hp.count]
          exact Nat.ne_of_lt hp.short
        rw [tick_connected hfd, hclosed]
        exact congrFun (if_neg hnot) _
      rw [Ensures, hrun, (tick_closes (d := mpsse_driver usb fuel freq) hp hfd hclosed).1]
      refine ⟨h.driven, ensures_pure ⟨h.driven, fun hl => ?_, h.empty⟩⟩
      rw [hhangs, Bool.or_true] at hl
      cases hl
    · have hstays : hangsUp s net = false := by simp [hangsUp, hclosed]
      obtain ⟨-, buffer, hsize, -, hexecuted, htick⟩ :=
        tick_read_eq (d := mpsse_driver usb fuel freq) hp hfd hclosed rfl
      have hnothing := hnet.2
      rw [hexecuted] at hnothing
      rw [Ensures, htick, hexecuted, hstays, Bool.or_false]
      split
      · rename_i hfull
        rw [if_pos hfull] at hnothing
        rw [vpi_execute_eq hsize]
        exact perform_set h fun hl => hnothing hl buffer (List.mem_singleton_self _)
      · exact ⟨h.driven, ensures_pure h⟩
  · have hstays : hangsUp s net = false := by simp [hangsUp, hfd]
    rw [Ensures, tick_alone hfd, executed, if_neg hfd, hstays, Bool.or_false]
    cases net.accept with
    | true => exact ⟨h.driven, fun _ t ht => by cases ht; exact h⟩
    | false => exact ⟨h.driven, fun _ t ht => by cases ht; exact h⟩

/-! ## Runs -/

theorem run_set (hinit : DrivenInMode c₀ c.dev.port ∧ c.dev.port.bitmode = BITMODE_MPSSE ∧ c.dev.mpsse_buffer = [])
    (h : Run (mpsse_driver usb fuel freq) c left owed s) : (∃ p, Waits s p) ∧ Set c₀ left owed s.jtag := by
  induction h with
  | boot => exact ⟨⟨[], boot_waits c⟩, hinit.1, fun _ => hinit.2.1, fun _ => hinit.2.2⟩
  | tick _ hnet hrun ih =>
    obtain ⟨⟨p, hp⟩, hset⟩ := ih
    obtain ⟨p', -, hwaits⟩ := tick_splits (d := mpsse_driver usb fuel freq) hp _
    exact ⟨⟨p', hwaits _ _ hrun⟩, (tick_set hp hset hnet).2 _ _ hrun⟩

/-- In the runs with such steps only, all bytes go out in MPSSE mode, and the mode is left with nothing in the
buffer. -/
theorem vpi_drives_in_mpsse_mode {ty : AdapterTypes} (hinit : mpsse_init usb freq ty c₀ = .ok true c)
    (h : Run (mpsse_driver usb fuel freq) c left owed s) :
    DrivenInMode c₀ s.jtag.dev.port ∧ ∀ net, Allowed (mpsse_driver usb fuel freq) left owed s net →
      DrivenInMode c₀ (finalState (jtag_vpi_tick (mpsse_driver usb fuel freq) net s)).jtag.dev.port ∧
      (hangsUp s net = true → s.jtag.dev.mpsse_buffer = []) := by
  obtain ⟨⟨p, hp⟩, hset⟩ := run_set (mpsse_init_mode hinit) h
  exact ⟨hset.driven, fun net hnet => ⟨(tick_set hp hset hnet).1, fun hhangs => hset.empty (hnet.1 hhangs)⟩⟩

/-! ## A client that leaves commands behind -/

def coldMpsse : Jtag Mpsse := ⟨.TestLogicReset, 0, ⟨[], ⟨BITMODE_RESET, [], 0, 0, 0⟩⟩⟩

def usbMpsse : Usb := mpsseUsb blinkBoard idleEngine

def setUp : Jtag Mpsse := finalState (mpsse_init usbMpsse 15 .Adapter_Xilinx coldMpsse)

/-- Eight bits with CMD_SCAN_CHAIN. -/
def scanRecord : List Byte := [2, 0, 0, 0] ++ List.replicate 1028 0 ++ [8, 0, 0, 0]

def admittedFirst : Vpi Mpsse :=
  finalState (jtag_vpi_tick (mpsse_driver usbMpsse 100 15) ⟨.failed, true⟩ (bootVpi setUp))

def afterScan : Vpi Mpsse :=
  finalState (jtag_vpi_tick (mpsse_driver usbMpsse 100 15) ⟨deliver scanRecord, false⟩ admittedFirst)

theorem allowed_unless_left {d : driver Mpsse} {s : Vpi Mpsse} {owed : Bool} {net : Net}
    (h : hangsUp s net = false) : Allowed d false owed s net :=
  ⟨fun hhangs => absurd (h.symm.trans hhangs) (by decide), fun hleft => absurd hleft (by decide)⟩

theorem vpi_drives_in_mpsse_mode_scan : DrivenInMode coldMpsse afterScan.jtag.dev.port ∧
    ∀ net, Allowed (mpsse_driver usbMpsse 100 15) false false afterScan net →
      DrivenInMode coldMpsse (finalState (jtag_vpi_tick (mpsse_driver usbMpsse 100 15) net afterScan)).jtag.dev.port ∧
      (hangsUp afterScan net = true → afterScan.jtag.dev.mpsse_buffer = []) := by
  have hadmits := of_returned (r := jtag_vpi_tick (mpsse_driver usbMpsse 100 15) ⟨.failed, true⟩ (bootVpi setUp))
    (by decide +kernel)
  have hscan := of_returned
    (r := jtag_vpi_tick (mpsse_driver usbMpsse 100 15) ⟨deliver scanRecord, false⟩ admittedFirst) (by decide +kernel)
  have hfirst := Run.tick .boot (allowed_unless_left (by decide +kernel)) hadmits
  have hleft : (false || hangsUp (bootVpi setUp) ⟨.failed, true⟩) = false := by decide +kernel
  have howed : owedAfter false (executed (mpsse_driver usbMpsse 100 15) (bootVpi setUp) ⟨.failed, true⟩) = false := by
    decide +kernel
  rw [hleft, howed] at hfirst
  have hsecond := Run.tick hfirst (allowed_unless_left (by decide +kernel)) hscan
  have hleft' : (false || hangsUp admittedFirst ⟨deliver scanRecord, false⟩) = false := by decide +kernel
  have howed' : owedAfter false
      (executed (mpsse_driver usbMpsse 100 15) admittedFirst ⟨deliver scanRecord, false⟩) = false := by decide +kernel
  rw [← admittedFirst, hleft', howed', ← afterScan] at hsecond
  have hinit := of_answer (r := mpsse_init usbMpsse 15 .Adapter_Xilinx coldMpsse) (a := true) (by decide +kernel)
  rw [← setUp] at hinit
  exact vpi_drives_in_mpsse_mode hinit hsecond

/-- A client that sends a CMD_RESET. -/
def resetsOnly : List Net := [⟨.failed, true⟩, ⟨deliver (List.replicate SIZEOF_CMD 0), false⟩]

/-- It hangs up, and another one scans. -/
def hangsUpThenScans : List Net := [⟨.closed, false⟩, ⟨.failed, true⟩, ⟨deliver scanRecord, false⟩]

/-- The TMS command is still there when the mode is left, and goes out with the scan after that. -/
theorem mode_left_with_commands : mpsse_init usbMpsse 15 .Adapter_Xilinx coldMpsse = .ok true setUp ∧
    ∃ s t, resetsOnly.forM (jtag_vpi_tick (mpsse_driver usbMpsse 100 15)) (bootVpi setUp) = .ok () s ∧
      hangsUp s ⟨.closed, false⟩ = true ∧ s.jtag.dev.mpsse_buffer = [0x4B, 0x04, 0x1F] ∧
      hangsUpThenScans.forM (jtag_vpi_tick (mpsse_driver usbMpsse 100 15)) s = .ok () t ∧
      ¬ DrivenInMode coldMpsse t.jtag.dev.port := by
  have hfirst := of_returned
    (r := resetsOnly.forM (jtag_vpi_tick (mpsse_driver usbMpsse 100 15)) (bootVpi setUp)) (by decide +kernel)
  have hsecond := of_returned (r := hangsUpThenScans.forM (jtag_vpi_tick (mpsse_driver usbMpsse 100 15))
    (finalState (resetsOnly.forM (jtag_vpi_tick (mpsse_driver usbMpsse 100 15)) (bootVpi setUp)))) (by decide +kernel)
  refine ⟨of_answer (by decide +kernel), _, _, hfirst, by decide +kernel, by decide +kernel, hsecond, ?_⟩
  rintro ⟨l, hl, hall⟩
  rw [show coldMpsse.dev.port.transfers = [] from rfl, List.nil_append] at hl
  rw [← hl] at hall
  exact absurd hall (by decide +kernel)

end JtagRemote.Vpi
