import JtagRemote.Xvc.Send

/-!
# A shift command

The shift is copied, cut into regions and sent. It leaves its scans pending, and
needs room for as many of them as it visits a Shift state.
-/

namespace JtagRemote.Xvc

/-! ## What became of a shift -/

structure Done where
  shift : Shift
  parts : List Part

def Done.regions (x : Done) : List Region := x.parts.map Part.region

def Done.cycles (x : Done) : List Cycle := x.parts.flatMap Part.cycles

def Done.scans (x : Done) : List Scan := x.parts.flatMap Part.scans

/-- What the server keeps of the command. -/
def Done.command (x : Done) : ShiftCommand := ⟨x.shift.bits, (x.shift.bits + 7) / 8, x.regions⟩

structure Done.Ok (ticks : Nat → Nat) (st : JtagState) (x : Done) : Prop where
  tiles : Tiles st x.shift.tms 0 x.regions x.shift.bits
  parts : ∀ p ∈ x.parts, p.Ok ticks x.shift

/-- The TAP state after a shift. -/
def Shift.after (sh : Shift) (st : JtagState) : JtagState := stateAt st sh.tms sh.bits

/-- The shifts run one after the other, each from the state that the one before left. -/
inductive Session (ticks : Nat → Nat) : JtagState → List Done → Prop
  | nil (st : JtagState) : Session ticks st []
  | cons {st : JtagState} {x : Done} {xs : List Done} : x.Ok ticks st →
      Session ticks (x.shift.after st) xs → Session ticks st (x :: xs)

def stateAfterAll (st : JtagState) (cmds : List Command) : JtagState :=
  (shifts cmds).foldl (fun st sh => sh.after st) st

/-! ## The globals -/

structure Ok {δ : Type} (s : Xvc δ) : Prop where
  sock : s.sock.Ok
  alive : s.sock.alive = true
  tms : s.tms.length = BUFFER_SIZE
  tdi : s.tdi.length = BUFFER_SIZE
  tdo : s.tdo.length = BUFFER_SIZE

/-- The arrays are as long as they are declared, and the window lies in its buffer. -/
structure Sized {δ : Type} (s : Xvc δ) : Prop where
  sock : s.sock.Ok
  tms : s.tms.length = BUFFER_SIZE
  tdi : s.tdi.length = BUFFER_SIZE
  tdo : s.tdo.length = BUFFER_SIZE

theorem Ok.sized {δ : Type} {s : Xvc δ} (h : Ok s) : Sized s := ⟨h.sock, h.tms, h.tdi, h.tdo⟩

theorem Ok.consume {δ : Type} {s : Xvc δ} (h : Ok s) {n : Nat} (hn : n ≤ s.sock.window.length) :
    Ok { s with sock := s.sock.consume n } := ⟨h.sock.consume hn, h.alive, h.tms, h.tdi, h.tdo⟩

theorem Ok.relinked {δ : Type} {s : Xvc δ} (h : Ok s) (c : Jtag δ) : Ok { s with jtag := c } :=
  ⟨h.sock, h.alive, h.tms, h.tdi, h.tdo⟩

/-- `s` after `data` was written. -/
def replied {δ : Type} (s : Xvc δ) (data : List Byte) : Xvc δ :=
  { s with sock := { s.sock with written := s.sock.written ++ data } }

theorem xvc_reply_ok {δ : Type} {s : Xvc δ} (h : Ok s) (data : List Byte) :
    xvc_reply data s = .ok () (replied s data) := by
  have hwrite : xvc_sock (write_full data) s = .ok true (replied s data) := by
    unfold xvc_sock focus
    rw [Sock.write_full_ok h.alive]
    rfl
  unfold xvc_reply
  rw [bind_of_ok hwrite]
  rfl

theorem Ok.replied {δ : Type} {s : Xvc δ} (h : Ok s) (data : List Byte) : Ok (replied s data) :=
  ⟨⟨h.sock.size, h.sock.order, h.sock.bound⟩, h.alive, h.tms, h.tdi, h.tdo⟩

section

variable {δ : Type} {board : Board} {d : driver δ} (A : Adapter board d) {s : Xvc δ} {l : Line}
  {st : JtagState} {sh : Shift}

/-! ## The regions of a shift -/

theorem xvc_region_spec {r : Region} (h : A.Stands s.jtag.state s.jtag.dev l)
    (hst : s.jtag.state = stateAt st sh.tms r.begin_) (hload : Loaded s sh) (hr : RegionOk st sh.tms r)
    (hend : r.end_ ≤ sh.bits) (hroom : r.is_tms = false → A.Room l.pending.length) :
    Returns (xvc_region d sh.bits r) s fun _ s' => ∃ p, Sent A s l st sh r s' p := by
  have hbounds : (decide (r.begin_ < r.end_) && decide (r.end_ ≤ sh.bits)) = true := by
    simp [hr.nonempty, hend]
  unfold xvc_region
  refine Returns.of_eq_bind (assert_ok hbounds s) ?_
  split
  · rename_i htms
    exact xvc_tms_region_spec A h hst hload hr htms hend
  · rename_i hdata
    have hdata : r.is_tms = false := by simpa using hdata
    exact xvc_data_region_spec A h hst hload hr hdata hend (hroom hdata)

theorem xvc_region_fails {r : Region} (h : A.Stands s.jtag.state s.jtag.dev l) (hload : Loaded s sh)
    (hr : RegionOk st sh.tms r) (hend : r.end_ ≤ sh.bits) (hdata : r.is_tms = false)
    (hroom : ¬ A.Room l.pending.length) : Faults (xvc_region d sh.bits r) s .assert_failed := by
  have hbounds : (decide (r.begin_ < r.end_) && decide (r.end_ ≤ sh.bits)) = true := by
    simp [hr.nonempty, hend]
  unfold xvc_region
  rw [Faults, bind_of_ok (assert_ok hbounds s), if_neg (by simp [hdata])]
  exact xvc_data_region_fails A h hload hr.nonempty hend hroom

/-- There is room for `n` scans behind the first `k`. -/
def RoomFor (k n : Nat) : Prop := ∀ j, k ≤ j → j < k + n → A.Room j

theorem roomFor_add {k m n : Nat} : RoomFor A k (m + n) ↔ RoomFor A k m ∧ RoomFor A (k + m) n := by
  constructor
  · intro h
    exact ⟨fun j hj hj' => h j hj (by omega), fun j hj hj' => h j (by omega) (by omega)⟩
  · rintro ⟨h, h'⟩ j hj hj'
    by_cases hjm : j < k + m
    · exact h j hj hjm
    · exact h' j (by omega) (by omega)

theorem dataRegions_cons (r : Region) (rs : List Region) :
    dataRegions (r :: rs) = (if r.is_tms then 0 else 1) + dataRegions rs := by
  rw [dataRegions, List.countP_cons, dataRegions, Nat.add_comm]
  cases r.is_tms <;> rfl

theorem Part.scans_length (p : Part) : p.scans.length = if p.region.is_tms then 0 else 1 := by
  unfold Part.scans
  split <;> rfl

/-- The globals and the line after the regions of a shift. -/
structure AllSent (s : Xvc δ) (l : Line) (sh : Shift) (rs : List Region) (s' : Xvc δ)
    (parts : List Part) : Prop where
  rest : s' = { s with jtag := s'.jtag }
  regions : parts.map Part.region = rs
  ok : ∀ p ∈ parts, p.Ok A.ticks sh
  ran : board.Ran l.log (parts.flatMap Part.cycles)
  stands : ∃ tms, A.Stands s'.jtag.state s'.jtag.dev
    ⟨l.log ++ parts.flatMap Part.cycles, tms, l.pending ++ parts.flatMap Part.scans⟩

theorem regions_spec {a b : Nat} {rs : List Region} (htiles : Tiles st sh.tms a rs b) (hb : b ≤ sh.bits)
    (h : A.Stands s.jtag.state s.jtag.dev l) (hst : s.jtag.state = stateAt st sh.tms a)
    (hload : Loaded s sh) (hroom : RoomFor A l.pending.length (dataRegions rs)) :
    Returns (rs.forM (xvc_region d sh.bits)) s fun _ s' => s'.jtag.state = stateAt st sh.tms b ∧
      ∃ parts, AllSent A s l sh rs s' parts := by
  induction htiles generalizing s l with
  | nil a =>
    refine returns_pure ⟨hst, [], rfl, rfl, by simp, rfl, l.tms, ?_⟩
    simpa using h
  | @cons r rs b hok htail ih =>
    have hle := htail.le
    rw [dataRegions_cons, roomFor_add] at hroom
    have hone : r.is_tms = false → A.Room l.pending.length := by
      intro hdata
      exact hroom.1 _ (Nat.le_refl _) (by simp [hdata])
    refine Returns.bind (xvc_region_spec A h hst hload hok (by omega) hone) ?_
    rintro _ s₁ ⟨p, hsent⟩
    obtain ⟨tms, hstands⟩ := hsent.stands
    have hload₁ : Loaded s₁ sh := by
      rw [hsent.rest]
      exact ⟨hload.tms_size, hload.tdi_size, hload.tms, hload.tdi⟩
    have hroom₁ : RoomFor A (l.pending ++ p.scans).length (dataRegions rs) := by
      rw [List.length_append, p.scans_length, hsent.region]
      exact hroom.2
    refine (ih (l := ⟨l.log ++ p.cycles, tms, l.pending ++ p.scans⟩) hb hstands hsent.state hload₁
      hroom₁).mono ?_
    rintro _ s₂ ⟨hst₂, parts, hall⟩
    refine ⟨hst₂, p :: parts, ?_, ?_, ?_, ?_, ?_⟩
    · rw [hall.rest, hsent.rest]
    · rw [List.map_cons, hsent.region, hall.regions]
    · intro q hq
      rcases List.mem_cons.mp hq with rfl | hq
      · exact hsent.ok
      · exact hall.ok q hq
    · rw [List.flatMap_cons]
      exact hsent.ran.append hall.ran
    · simpa only [List.flatMap_cons, List.append_assoc] using hall.stands

theorem regions_fail {a b : Nat} {rs : List Region} (htiles : Tiles st sh.tms a rs b) (hb : b ≤ sh.bits)
    (h : A.Stands s.jtag.state s.jtag.dev l) (hst : s.jtag.state = stateAt st sh.tms a)
    (hload : Loaded s sh) (hroom : ¬ RoomFor A l.pending.length (dataRegions rs)) :
    Faults (rs.forM (xvc_region d sh.bits)) s .assert_failed := by
  induction htiles generalizing s l with
  | nil a => exact absurd (fun j hj hj' => absurd hj' (by simp [dataRegions]; omega)) hroom
  | @cons r rs b hok htail ih =>
    have hle := htail.le
    rw [dataRegions_cons, roomFor_add, not_and_or] at hroom
    by_cases hone : r.is_tms = false → A.Room l.pending.length
    · refine Returns.bind_faults (xvc_region_spec A h hst hload hok (by omega) hone) ?_
      rintro _ s₁ ⟨p, hsent⟩
      obtain ⟨tms, hstands⟩ := hsent.stands
      have hload₁ : Loaded s₁ sh := by
        rw [hsent.rest]
        exact ⟨hload.tms_size, hload.tdi_size, hload.tms, hload.tdi⟩
      refine ih (l := ⟨l.log ++ p.cycles, tms, l.pending ++ p.scans⟩) hb hstands hsent.state hload₁ ?_
      rw [List.length_append, p.scans_length, hsent.region]
      refine hroom.resolve_left (not_not_intro ?_)
      intro j hj hj'
      cases htms : r.is_tms with
      | true => simp [htms] at hj'; omega
      | false =>
        obtain rfl : j = l.pending.length := by simp [htms] at hj'; omega
        exact hone htms
    · rw [Classical.not_imp] at hone
      exact Faults.bind (xvc_region_fails A h hload hok (by omega) hone.1 hone.2)

/-! ## The command -/

theorem le_max_bytes (h : s.tms.length = BUFFER_SIZE) (sh : Shift) : sh.bits ≤ 8 * s.tms.length := by
  have := sh.fits
  unfold MAX_BITS at this
  unfold BUFFER_SIZE at h
  omega

/-- The globals after the command is copied. -/
def loaded (s : Xvc δ) (sh : Shift) : Xvc δ :=
  { s with
    tms := splice s.tms 0 sh.tms
    tdi := splice s.tdi 0 sh.tdi
    sock := s.sock.consume (Command.shift sh).encode.length }

theorem loaded_sized (h : Sized s) (hlen : (Command.shift sh).encode.length ≤ s.sock.window.length) :
    Sized (loaded s sh) ∧ Loaded (loaded s sh) sh := by
  have hfits := sh.fits
  have htms := h.tms
  have htdi := h.tdi
  have hlt := sh.tms_length
  have hld := sh.tdi_length
  unfold MAX_BITS at hfits
  have hsize : (splice s.tms 0 sh.tms).length = BUFFER_SIZE := by
    rw [splice_length, htms]
    unfold BUFFER_SIZE at htms
    omega
  have hsize' : (splice s.tdi 0 sh.tdi).length = BUFFER_SIZE := by
    rw [splice_length, htdi]
    unfold BUFFER_SIZE at htdi
    omega
  refine ⟨⟨h.sock.consume hlen, hsize, hsize', h.tdo⟩, hsize, hsize', ?_, ?_⟩
  · intro i hi
    exact (bitAt_splice_zero _ _ _).trans (if_pos (by omega))
  · intro i hi
    exact (bitAt_splice_zero _ _ _).trans (if_pos (by omega))

theorem loaded_ok (h : Ok s) (hlen : (Command.shift sh).encode.length ≤ s.sock.window.length) :
    Ok (loaded s sh) ∧ Loaded (loaded s sh) sh := by
  obtain ⟨hsized, hload⟩ := loaded_sized h.sized hlen
  exact ⟨⟨hsized.sock, h.alive, hsized.tms, hsized.tdi, hsized.tdo⟩, hload⟩

/-- The program once the command is known to be complete. -/
def shift_send (d : driver δ) (sh : Shift) : XvcProg δ (Option ShiftCommand) := do
  let s ← get
  let (regions, cur_state) ← analyze_bitbang s.jtag.state s.tms sh.bits
  regions.forM (xvc_region d sh.bits)
  let s ← get
  assert (decide (cur_state = s.jtag.state))
  pure (some ⟨sh.bits, (sh.bits + 7) / 8, regions⟩)

theorem window_parts {tail : List Byte} (hwin : s.sock.window = (Command.shift sh).encode ++ tail) :
    s.sock.window.drop SHIFT.length = le_bytes (BitVec.ofNat 32 sh.bits) ++ (sh.tms ++ (sh.tdi ++ tail)) ∧
    s.sock.window.drop (SHIFT.length + 4) = sh.tms ++ (sh.tdi ++ tail) ∧
    s.sock.window.drop (SHIFT.length + 4 + (sh.bits + 7) / 8) = sh.tdi ++ tail := by
  have h : s.sock.window.drop SHIFT.length =
      le_bytes (BitVec.ofNat 32 sh.bits) ++ (sh.tms ++ (sh.tdi ++ tail)) := by
    rw [hwin, Command.encode, List.append_assoc, List.drop_left]
    simp only [List.append_assoc]
  have h4 : s.sock.window.drop (SHIFT.length + 4) = sh.tms ++ (sh.tdi ++ tail) := by
    rw [← List.drop_drop, h]
    exact List.drop_left' (le_bytes_length _)
  refine ⟨h, h4, ?_⟩
  rw [← List.drop_drop, h4, List.drop_left' sh.tms_length]

/-- A complete command is copied, taken off the window, and sent. -/
theorem xvc_shift_eq (h : Sized s) {tail : List Byte}
    (hwin : s.sock.window = (Command.shift sh).encode ++ tail) :
    xvc_shift d s = shift_send d sh (loaded s sh) := by
  have hlen := congrArg List.length hwin
  rw [List.length_append, sh.encode_length] at hlen
  have hwlen := h.sock.window_length
  have horder := h.sock.order
  obtain ⟨hdrop, hdrop4, hdrop5⟩ := window_parts hwin
  have hfits := sh.fits
  have htms := h.tms
  have htdi := h.tdi
  unfold MAX_BITS at hfits
  unfold BUFFER_SIZE at htms htdi
  have harg : (s.sock.window.drop SHIFT.length).take 4 = le_bytes (BitVec.ofNat 32 sh.bits) := by
    rw [hdrop, List.take_left' (le_bytes_length _)]
  have hbits : le32 (le_bytes (BitVec.ofNat 32 sh.bits)) = sh.bits := by
    have := sh.le32_bits []
    rwa [List.append_nil] at this
  have htmsb : (s.sock.window.drop (SHIFT.length + 4)).take ((sh.bits + 7) / 8) = sh.tms := by
    rw [hdrop4, List.take_left' sh.tms_length]
  have htdib : (s.sock.window.drop (SHIFT.length + 4 + (sh.bits + 7) / 8)).take ((sh.bits + 7) / 8) =
      sh.tdi := by
    rw [hdrop5, List.take_left' sh.tdi_length]
  unfold xvc_shift
  rw [bind_of_ok (get_apply s), bind_of_ok (h.sock.bytes_at_window (by omega) s), harg, hbits]
  simp only [shift_bytes_eq sh.fits, shift_total_len_eq sh.fits, Nat.add_assoc s.sock.buffer_begin]
  rw [if_neg (by omega), bind_of_ok (h.sock.bytes_at_window (by omega) s), htmsb,
    bind_of_ok (memcpy_ok (by rw [sh.tms_length]; omega) s),
    bind_of_ok (h.sock.bytes_at_window (by omega) s), htdib,
    bind_of_ok (memcpy_ok (by rw [sh.tdi_length]; omega) s), ← sh.encode_length]
  rfl

/-- The globals and the line after a shift. -/
structure ShiftSent (s : Xvc δ) (l : Line) (sh : Shift) (s' : Xvc δ) (x : Done) : Prop where
  shift : x.shift = sh
  ok : x.Ok A.ticks s.jtag.state
  globals : Ok s'
  sock : s'.sock = s.sock.consume (Command.shift sh).encode.length
  state : s'.jtag.state = sh.after s.jtag.state
  ran : board.Ran l.log x.cycles
  stands : ∃ tms, A.Stands s'.jtag.state s'.jtag.dev ⟨l.log ++ x.cycles, tms, l.pending ++ x.scans⟩
  scans : x.scans.length = visits s.jtag.state sh.tms sh.bits

theorem Part.scans_count (parts : List Part) :
    (parts.flatMap Part.scans).length = dataRegions (parts.map Part.region) := by
  induction parts with
  | nil => rfl
  | cons p parts ih =>
    rw [List.flatMap_cons, List.length_append, p.scans_length, ih, List.map_cons, dataRegions_cons]

/-- The regions of a shift, as the server finds them. -/
theorem shift_regions (h : Sized s) (hlen : (Command.shift sh).encode.length ≤ s.sock.window.length) :
    Returns (analyze_bitbang s.jtag.state (loaded s sh).tms sh.bits : XvcProg δ (List Region × JtagState))
      (loaded s sh) fun r s' => s' = loaded s sh ∧
        Tiles s.jtag.state sh.tms 0 r.1 sh.bits ∧ r.2 = sh.after s.jtag.state ∧
        dataRegions r.1 = visits s.jtag.state sh.tms sh.bits := by
  obtain ⟨hok, hload⟩ := loaded_sized h hlen
  refine (analyze_bitbang_spec s.jtag.state (loaded s sh).tms sh.bits (loaded s sh)
    (le_max_bytes hok.tms sh)).mono ?_
  rintro ⟨rs, cur⟩ s' ⟨hs', htiles, hclosed, hcur⟩
  have htiles' := htiles.congr hload.tms
  refine ⟨hs', htiles', ?_, ?_⟩
  · simp only at hcur
    rw [hcur, Shift.after, stateAt_congr hload.tms]
  · rw [htiles'.dataRegions_eq ?_ (Or.inl rfl), visits, List.range_eq_range', Nat.sub_zero]
    intro r hr
    rcases hclosed r hr with hend | hclosed
    · exact Or.inl hend
    · have hle : r.end_ ≤ sh.bits := htiles.mem_le hr
      exact Or.inr (hclosed.congr fun i hi => hload.tms i (by omega))

theorem xvc_shift_spec (h : Ok s) {tail : List Byte}
    (hwin : s.sock.window = (Command.shift sh).encode ++ tail) (hA : A.Stands s.jtag.state s.jtag.dev l)
    (hroom : RoomFor A l.pending.length (visits s.jtag.state sh.tms sh.bits)) :
    Returns (xvc_shift d) s fun r s' => ∃ x, r = some x.command ∧ ShiftSent A s l sh s' x := by
  have hlen : (Command.shift sh).encode.length ≤ s.sock.window.length := by
    rw [hwin, List.length_append]
    omega
  obtain ⟨hok, hload⟩ := loaded_ok h hlen
  rw [Returns, xvc_shift_eq h.sized hwin]
  unfold shift_send
  refine Returns.get_bind ?_
  refine Returns.bind (shift_regions h.sized hlen) ?_
  rintro ⟨rs, cur⟩ _ ⟨rfl, htiles, hcur, hcount⟩
  simp only at htiles hcur hcount ⊢
  rw [← hcount] at hroom
  refine Returns.bind (regions_spec A htiles (Nat.le_refl _) hA rfl hload hroom) ?_
  rintro _ s' ⟨hst, parts, hall⟩
  refine Returns.get_bind ?_
  refine Returns.of_eq_bind (assert_ok (by rw [hcur, hst]; simp [Shift.after]) s') ?_
  have hglobals : Ok s' := by
    rw [hall.rest]
    exact ⟨hok.sock, hok.alive, hok.tms, hok.tdi, hok.tdo⟩
  refine returns_pure ⟨⟨sh, parts⟩, ?_, rfl, ⟨?_, hall.ok⟩, hglobals, ?_, hst, hall.ran, hall.stands, ?_⟩
  · rw [← hall.regions]
    rfl
  · show Tiles _ _ 0 (parts.map Part.region) _
    rwa [hall.regions]
  · rw [hall.rest]
    rfl
  · rw [← hcount, ← hall.regions]
    exact Part.scans_count parts

theorem xvc_shift_fails (h : Ok s) {tail : List Byte}
    (hwin : s.sock.window = (Command.shift sh).encode ++ tail) (hA : A.Stands s.jtag.state s.jtag.dev l)
    (hroom : ¬ RoomFor A l.pending.length (visits s.jtag.state sh.tms sh.bits)) :
    Faults (xvc_shift d) s .assert_failed := by
  have hlen : (Command.shift sh).encode.length ≤ s.sock.window.length := by
    rw [hwin, List.length_append]
    omega
  obtain ⟨hok, hload⟩ := loaded_ok h hlen
  rw [Faults, xvc_shift_eq h.sized hwin]
  unfold shift_send
  rw [bind_of_ok (get_apply _)]
  refine Returns.bind_faults (shift_regions h.sized hlen) ?_
  rintro ⟨rs, cur⟩ _ ⟨rfl, htiles, hcur, hcount⟩
  simp only at htiles hcur hcount ⊢
  rw [← hcount] at hroom
  exact Faults.bind (regions_fail A htiles (Nat.le_refl _) hA rfl hload hroom)

end

end JtagRemote.Xvc
