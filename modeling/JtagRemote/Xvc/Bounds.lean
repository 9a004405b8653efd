import JtagRemote.Hardware.Direct
import JtagRemote.Xvc.Exact

/-!
# What a window may hold

Whatever bytes are in it, a window starts with complete commands. Behind them is the
start of a command, or a shift whose count wraps when it is rounded up to bytes.
-/

namespace JtagRemote.Xvc

/-! ## The commands of a window -/

/-- A complete shift of so many bits that `bits + 7` wraps: it takes 10 bytes. -/
structure Wraps (w : List Byte) : Prop where
  shift : SHIFT <+: w
  complete : SHIFT.length + 4 ≤ w.length
  wraps : 2 ^ 32 ≤ le32 (w.drop SHIFT.length) + 7

theorem le32_encode (l : List Byte) (h : 4 ≤ l.length) : l = le_bytes (BitVec.ofNat 32 (le32 l)) ++ l.drop 4 := by
  match l, h with
  | b0 :: b1 :: b2 :: b3 :: rest, _ =>
    have h0 := b0.isLt
    have h1 := b1.isLt
    have h2 := b2.isLt
    have h3 := b3.isLt
    simp only [le32, le_bytes, List.take_succ_cons, List.take_zero, List.foldr_cons, List.foldr_nil, List.drop_succ_cons,
      List.drop_zero, List.cons_append, List.nil_append, List.cons.injEq, and_true]
    refine ⟨?_, ?_, ?_, ?_⟩ <;> apply BitVec.eq_of_toNat_eq <;>
      simp only [BitVec.toNat_setWidth, BitVec.toNat_ushiftRight, BitVec.toNat_ofNat, Nat.shiftRight_eq_div_pow] <;>
      omega

/-- A shift that fits the window, with its vectors. -/
theorem shift_encode {w : List Byte} (hpre : SHIFT <+: w) (hlen : SHIFT.length + 4 ≤ w.length)
    (hcount : le32 (w.drop SHIFT.length) + 7 < 2 ^ 32) (hfits : shift_total_len (le32 (w.drop SHIFT.length)) ≤ w.length)
    (hw : w.length ≤ BUFFER_SIZE) : ∃ sh rest, w = (Command.shift sh).encode ++ rest := by
  have hsize : BUFFER_SIZE = 4096 := rfl
  have htext : SHIFT.length = 6 := rfl
  obtain ⟨x, rfl⟩ := hpre
  rw [List.length_append] at hlen hw hfits
  rw [List.drop_left] at hcount hfits
  generalize hbits : le32 x = bits at hcount hfits
  have hbytes : shift_bytes bits = (bits + 7) / 8 := by
    unfold shift_bytes
    omega
  rw [shift_total_len, hbytes, Nat.mod_eq_of_lt (by omega)] at hfits
  have hmax : bits ≤ MAX_BITS := by
    unfold MAX_BITS
    omega
  have htms : ((x.drop 4).take ((bits + 7) / 8)).length = (bits + 7) / 8 := by
    rw [List.length_take, List.length_drop]
    omega
  have htdi : (((x.drop 4).drop ((bits + 7) / 8)).take ((bits + 7) / 8)).length = (bits + 7) / 8 := by
    rw [List.length_take, List.length_drop, List.length_drop]
    omega
  refine ⟨⟨bits, _, _, hmax, htms, htdi⟩, ((x.drop 4).drop ((bits + 7) / 8)).drop ((bits + 7) / 8), ?_⟩
  rw [Command.encode, List.append_assoc]
  refine congrArg (SHIFT ++ ·) ?_
  rw [List.append_assoc, List.append_assoc, List.take_append_drop, List.take_append_drop]
  have hword := le32_encode x (by omega)
  rwa [hbits] at hword

/-- Any window is complete commands, and then no complete command or a shift that wraps. -/
theorem window_commands {w : List Byte} (hw : w.length ≤ BUFFER_SIZE) :
    ∃ cmds rest, w = encodeAll cmds ++ rest ∧ (nextLen rest = none ∨ Wraps rest) := by
  induction hn : w.length using Nat.strongRecOn generalizing w with
  | ind n ih =>
    have hmore : ∀ c x, w = Command.encode c ++ x →
        ∃ cmds rest, w = encodeAll cmds ++ rest ∧ (nextLen rest = none ∨ Wraps rest) := by
      rintro c x rfl
      rw [List.length_append] at hw hn
      have hpos := framer.pos (framer_encode c)
      obtain ⟨cmds, rest, rfl, hrest⟩ := ih x.length (by omega) (by omega) rfl
      refine ⟨c :: cmds, rest, ?_, hrest⟩
      rw [encodeAll, encodeAll, List.flatMap_cons, List.append_assoc]
    by_cases hget : GETINFO <+: w
    · obtain ⟨x, rfl⟩ := hget
      exact hmore .getinfo x rfl
    by_cases hset : SETTCK <+: w ∧ SETTCK.length + 4 ≤ w.length
    · obtain ⟨⟨x, rfl⟩, hlen⟩ := hset
      rw [List.length_append] at hlen
      refine hmore (.settck (BitVec.ofNat 32 (le32 x))) (x.drop 4) ?_
      rw [Command.encode, List.append_assoc]
      exact congrArg (SETTCK ++ ·) (le32_encode x (by omega))
    by_cases hshift : SHIFT <+: w ∧ SHIFT.length + 4 ≤ w.length ∧
        shift_total_len (le32 (w.drop SHIFT.length)) ≤ w.length
    · rcases Nat.lt_or_ge (le32 (w.drop SHIFT.length) + 7) (2 ^ 32) with hcount | hwraps
      · obtain ⟨sh, x, heq⟩ := shift_encode hshift.1 hshift.2.1 hcount hshift.2.2 hw
        exact hmore (.shift sh) x heq
      · exact ⟨[], w, rfl, .inr ⟨hshift.1, hshift.2.1, hwraps⟩⟩
    · refine ⟨[], w, rfl, .inl ?_⟩
      rw [nextLen, if_neg hget, if_neg hset, if_neg hshift]

/-! ## Accesses while a window is parsed -/

section

variable {δ : Type} {d : driver δ} (B : Bounded d) {s : Xvc δ}

/-- The driver takes any scan that fits a window. -/
def TakesScans : Prop := ∀ n flip, n ≤ MAX_BITS → B.Fits n flip

/-- The arrays of the server and of its driver are as long as they are declared. -/
structure InOrder (s : Xvc δ) : Prop where
  sized : Sized s
  dev : B.Ok s.jtag.dev

variable {B}

theorem InOrder.relinked (h : InOrder B s) {c : Jtag δ} (hc : B.Ok c.dev) : InOrder B { s with jtag := c } :=
  ⟨⟨h.sized.sock, h.sized.tms, h.sized.tdi, h.sized.tdo⟩, hc⟩

theorem InOrder.wrote (h : InOrder B s) (written : List Byte) :
    InOrder B { s with sock := { s.sock with written := written } } :=
  ⟨⟨⟨h.sized.sock.size, h.sized.sock.order, h.sized.sock.bound⟩, h.sized.tms, h.sized.tdi, h.sized.tdo⟩, h.dev⟩

theorem InOrder.consume (h : InOrder B s) {n : Nat} (hn : n ≤ s.sock.window.length) : InOrder B (taken s n) :=
  ⟨⟨h.sized.sock.consume hn, h.sized.tms, h.sized.tdi, h.sized.tdo⟩, h.dev⟩

/-- Whether the client takes the reply or not. -/
theorem xvc_reply_ends (h : InOrder B s) (data : List Byte) :
    Ends (xvc_reply data) s Finishes fun _ t => InOrder B t ∧ t.sock.window = s.sock.window := by
  unfold xvc_reply
  have hwrite : Ends (write_full data) s.sock Finishes fun _ k => ∃ written, k = { s.sock with written := written } := by
    refine Ends.get_bind (ends_ite (fun _ => Ends.set_bind (ends_pure ⟨_, rfl⟩)) fun _ => ?_)
    exact ends_pure ⟨s.sock.written, rfl⟩
  refine Ends.bind (Ends.focus hwrite) ?_
  rintro ok _ ⟨_, ⟨written, rfl⟩, rfl⟩
  unfold assert
  exact ends_ite (fun _ => ends_pure ⟨h.wrote written, rfl⟩) fun _ => ends_throw (by decide)

/-- What one region does. -/
def Kept (B : Bounded d) (s t : Xvc δ) : Prop := ∃ c, t = { s with jtag := c } ∧ B.Ok c.dev

theorem Kept.in_order {t : Xvc δ} (h : Kept B s t) (hs : InOrder B s) : InOrder B t := by
  obtain ⟨c, rfl, hc⟩ := h
  exact hs.relinked hc

theorem xvc_jtag_ends {α : Type} {p : EStateM Fault (Jtag δ) α} {F : Fault → Prop} {P : α → Prop}
    (h : Ends p s.jtag F fun a c => P a ∧ B.Ok c.dev) : Ends (xvc_jtag p) s F fun a t => P a ∧ Kept B s t := by
  refine (Ends.focus h).mono ?_
  rintro a _ ⟨c, ⟨ha, hc⟩, rfl⟩
  exact ⟨ha, c, rfl, hc⟩

theorem Kept.trans {t u : Xvc δ} (h : Kept B s t) (h' : Kept B t u) : Kept B s u := by
  obtain ⟨c, rfl, -⟩ := h
  obtain ⟨e, rfl, he⟩ := h'
  exact ⟨e, rfl, he⟩

theorem region_length_ends {r : Region} (h : r.begin_ < r.end_) {F : Fault → Prop} (s : Xvc δ) :
    Ends (r.length : XvcProg δ Nat) s F fun n t => t = s ∧ n = r.end_ - r.begin_ :=
  .of_ok (Region.length_ok h s) ⟨rfl, rfl⟩

theorem xvc_tms_region_ends (h : InOrder B s) {r : Region} (hr : r.begin_ < r.end_) (hend : r.end_ ≤ MAX_BITS) :
    Ends (xvc_tms_region d r) s Finishes fun _ => Kept B s := by
  have hmax : MAX_BITS = 16344 := rfl
  have hsize : BUFFER_SIZE = 4096 := rfl
  have htms := h.sized.tms
  unfold xvc_tms_region
  refine Ends.get_bind (Ends.bind (Ends.forUpto
    (fun _ (x : List Byte × Bool) t => t = s ∧ x.1.length = BUFFER_SIZE) ⟨rfl, List.length_replicate⟩ ?_) ?_)
  · rintro off ⟨buf, clock_only⟩ _ hoff ⟨rfl, hbuf⟩
    refine Ends.bind (bit_of_ends (by omega) _) ?_
    rintro bit _ ⟨rfl, -⟩
    refine Ends.bind (or_bit_ends (by simp only at hbuf; omega) bit _) ?_
    rintro buf' _ ⟨rfl, hbuf'⟩
    exact ends_pure ⟨rfl, hbuf'.trans hbuf⟩
  · rintro ⟨buf, clock_only⟩ _ ⟨rfl, hbuf⟩
    simp only at hbuf
    refine Ends.bind (region_length_ends hr _) ?_
    rintro n _ ⟨rfl, rfl⟩
    have hseq : ∀ n, n ≤ MAX_BITS → Ends (xvc_jtag (jtag_tms_seq d buf n)) _ Finishes fun _ t => True ∧ Kept B _ t :=
      fun n hn => xvc_jtag_ends ((B.jtag_tms_seq_ends h.dev (by omega)).mono fun _ _ hc => ⟨trivial, hc⟩)
    refine ends_ite (fun _ => ?_) fun _ => ?_
    · refine Ends.bind (hseq 1 (by decide)) fun _ t ht => ?_
      have hclock := xvc_jtag_ends (s := t) ((B.jtag_clock_tck_ends (n := r.end_ - r.begin_ - 1)
        (ht.2.in_order h).dev).mono fun _ _ hc => ⟨trivial, hc⟩)
      exact Ends.bind hclock fun _ u hu => ends_pure (ht.2.trans hu.2)
    · exact Ends.bind (hseq _ (by omega)) fun _ t ht => ends_pure ht.2

theorem xvc_data_region_ends (hB : TakesScans B) (h : InOrder B s) {r : Region} (hr : r.begin_ < r.end_)
    (hend : r.end_ ≤ MAX_BITS) : Ends (xvc_data_region d r) s Finishes fun _ => Kept B s := by
  have hmax : MAX_BITS = 16344 := rfl
  have hsize : BUFFER_SIZE = 4096 := rfl
  have htdi := h.sized.tdi
  unfold xvc_data_region
  refine Ends.get_bind (Ends.bind (Ends.forUpto
    (fun _ (x : List Byte) t => t = s ∧ x.length = BUFFER_SIZE) ⟨rfl, List.length_replicate⟩ ?_) ?_)
  · rintro off buf _ hoff ⟨rfl, hbuf⟩
    refine Ends.bind (bit_of_ends (by omega) _) ?_
    rintro bit _ ⟨rfl, -⟩
    exact (or_bit_ends (by omega) bit _).mono fun _ _ h => ⟨h.1, h.2.trans hbuf⟩
  · rintro buf _ ⟨rfl, hbuf⟩
    refine Ends.bind (region_length_ends hr _) ?_
    rintro n _ ⟨rfl, rfl⟩
    have hends := @Bounded.jtag_scan_chain_send_ends _ _ B _ buf (r.end_ - r.begin_) r.flip_tms true h.dev
      (fun _ => by omega) (by omega) (by omega) fun _ => hB _ _ (by omega)
    have hsend := xvc_jtag_ends (hends.mono fun _ _ hc => ⟨trivial, hc⟩)
    exact Ends.bind hsend fun _ t ht => ends_pure ht.2

theorem regions_ends (hB : TakesScans B) {rs : List Region} {bits : Nat} (hbits : bits ≤ MAX_BITS)
    (hrs : ∀ r ∈ rs, r.begin_ < r.end_ ∧ r.end_ ≤ bits) (h : InOrder B s) :
    Ends (rs.forM (xvc_region d bits)) s Finishes fun _ => Kept B s := by
  refine Ends.forM (Kept B s) ⟨s.jtag, rfl, h.dev⟩ fun r hr t ht => ?_
  obtain ⟨hne, hend⟩ := hrs r hr
  have ht' := ht.in_order h
  have hbounds : (decide (r.begin_ < r.end_) && decide (r.end_ ≤ bits)) = true := by simp [hne, hend]
  refine Ends.mono (Ends.bind (P := fun _ u => u = t) (.of_ok (assert_ok hbounds t) rfl) ?_) fun _ _ => ht.trans
  rintro _ _ rfl
  exact ends_ite (fun _ => xvc_tms_region_ends ht' hne (by omega)) fun _ => xvc_data_region_ends hB ht' hne (by omega)

/-- What the server keeps of a shift. -/
structure Accepted (sh : Shift) (c : ShiftCommand) : Prop where
  bits : c.bits = sh.bits
  bytes : c.bytes = (sh.bits + 7) / 8
  regions : ∀ r ∈ c.regions, r.begin_ < r.end_ ∧ r.end_ ≤ sh.bits

theorem accepted_bits {shs : List Shift} {cs : List ShiftCommand} (h : List.Forall₂ Accepted shs cs) :
    cs.map ShiftCommand.bits = shs.map Shift.bits := by
  induction h with
  | nil => rfl
  | cons hc _ ih => rw [List.map_cons, List.map_cons, hc.bits, ih]

theorem accepted_mem {shs : List Shift} {cs : List ShiftCommand} (h : List.Forall₂ Accepted shs cs) {c : ShiftCommand}
    (hc : c ∈ cs) : ∃ sh, Accepted sh c := by
  induction h with
  | nil => exact absurd hc List.not_mem_nil
  | cons hhead _ ih =>
    rcases List.mem_cons.mp hc with rfl | hc
    · exact ⟨_, hhead⟩
    · exact ih hc

theorem xvc_shift_ends (hB : TakesScans B) (h : InOrder B s) {sh : Shift} {tail : List Byte}
    (hwin : s.sock.window = (Command.shift sh).encode ++ tail) :
    Ends (xvc_shift d) s Finishes fun r t => (∃ c, r = some c ∧ Accepted sh c) ∧ InOrder B t ∧ t.sock.window = tail := by
  have hlen : (Command.shift sh).encode.length ≤ s.sock.window.length := by
    rw [hwin, List.length_append]
    omega
  have hloaded : InOrder B (loaded s sh) := ⟨(loaded_sized h.sized hlen).1, h.dev⟩
  have hwindow : (loaded s sh).sock.window = tail := by
    show (s.sock.consume _).window = tail
    rw [Sock.window_consume, hwin, List.drop_left]
  rw [Ends, xvc_shift_eq h.sized hwin]
  unfold shift_send
  refine Ends.get_bind (Ends.bind (shift_regions h.sized hlen).ends ?_)
  rintro ⟨rs, cur⟩ _ ⟨rfl, htiles, -, -⟩
  have hrs : ∀ r ∈ rs, r.begin_ < r.end_ ∧ r.end_ ≤ sh.bits := fun r hr => ⟨(htiles.ok hr).nonempty, htiles.mem_le hr⟩
  refine Ends.bind (regions_ends hB sh.fits hrs hloaded) fun _ t ht => Ends.get_bind ?_
  have hend : InOrder B t ∧ t.sock.window = tail := by
    refine ⟨ht.in_order hloaded, ?_⟩
    obtain ⟨c, rfl, -⟩ := ht
    exact hwindow
  refine Ends.bind (P := fun _ u => u = t) ?_ ?_
  · unfold assert
    exact ends_ite (fun _ => ends_pure rfl) fun _ => ends_throw (by decide)
  · rintro _ _ rfl
    exact ends_pure ⟨⟨_, rfl, rfl, rfl, hrs⟩, hend⟩

theorem xvc_getinfo_ends (h : InOrder B s) {tail : List Byte} (hwin : s.sock.window = Command.getinfo.encode ++ tail) :
    Ends xvc_getinfo s Finishes fun _ t => InOrder B t ∧ t.sock.window = tail := by
  have hlen : Command.getinfo.encode.length ≤ s.sock.window.length := by
    rw [hwin, List.length_append]
    omega
  have hrest : (taken s Command.getinfo.encode.length).sock.window = tail := by
    rw [taken, Sock.window_consume, hwin, List.drop_left]
  exact Ends.modify_bind ((xvc_reply_ends (h.consume hlen) INFO).mono fun _ _ ht => ⟨ht.1, ht.2.trans hrest⟩)

/-- A period of 0 stops the server. -/
theorem xvc_settck_ends (h : InOrder B s) {period : BitVec 32} {tail : List Byte}
    (hwin : s.sock.window = (Command.settck period).encode ++ tail) :
    Ends (xvc_settck d) s Finishes fun _ t => period ≠ 0 ∧ InOrder B t ∧ t.sock.window = tail := by
  obtain ⟨hlen, harg⟩ := settck_window h.sized.sock hwin
  have hrest : (taken s (Command.settck period).encode.length).sock.window = tail := by
    rw [taken, Sock.window_consume, hwin, List.drop_left]
  unfold xvc_settck
  refine Ends.get_bind (Ends.bind (P := fun arg t => arg = le_bytes period ∧ t = s) (.of_ok harg ⟨rfl, rfl⟩) ?_)
  rintro _ _ ⟨rfl, rfl⟩
  refine Ends.modify_bind ?_
  rw [le32_word]
  refine ends_ite (fun _ => ends_throw (by decide)) fun hne => ?_
  have htaken := h.consume hlen
  have hfreq := xvc_jtag_ends (s := taken _ _) ((B.freq (f := xvc_freq period.toNat) htaken.dev).mono
    fun _ _ hc => ⟨trivial, hc⟩)
  refine Ends.bind hfreq fun _ t ht => ?_
  have hwindow : t.sock.window = tail := by
    obtain ⟨c, rfl, -⟩ := ht.2
    exact hrest
  refine (xvc_reply_ends (ht.2.in_order htaken) (le_bytes period)).mono fun _ u hu => ?_
  exact ⟨fun h0 => hne (period_zero.mpr h0), hu.1, hu.2.trans hwindow⟩

/-- The loop ends behind the last complete command, unless it stops before. -/
theorem xvc_parse_ends (hB : TakesScans B) {cmds : List Command} {rest : List Byte} {fuel : Nat}
    {acc : List ShiftCommand} (h : InOrder B s) (hwin : s.sock.window = encodeAll cmds ++ rest)
    (hrest : nextLen rest = none ∨ Command.settck 0 ∈ cmds) (hfuel : cmds.length < fuel) :
    Ends (xvc_parse d fuel acc) s Finishes fun r t => InOrder B t ∧ t.sock.window = rest ∧ nextLen rest = none ∧
      ∃ xs, r = acc ++ xs ∧ List.Forall₂ Accepted (shifts cmds) xs := by
  induction cmds generalizing s acc fuel with
  | nil =>
    obtain ⟨fuel, rfl⟩ : ∃ n, fuel = n + 1 := ⟨fuel - 1, by omega⟩
    have hwin' : s.sock.window = rest := hwin
    have hnone := hrest.resolve_right List.not_mem_nil
    refine .of_ok (parse_stop h.sized.sock (by rw [hwin', hnone])) ⟨h, hwin', hnone, [], ?_, .nil⟩
    rw [List.append_nil]
  | cons c cmds ih =>
    rw [List.length_cons] at hfuel
    obtain ⟨fuel, rfl⟩ : ∃ n, fuel = n + 1 := ⟨fuel - 1, by omega⟩
    have hwin' : s.sock.window = c.encode ++ (encodeAll cmds ++ rest) := by
      rw [hwin, encodeAll, List.flatMap_cons, List.append_assoc]
      rfl
    have hclen : c.encode.length ≤ s.sock.window.length := by
      rw [hwin', List.length_append]
      omega
    have hlater : c ≠ .settck 0 → nextLen rest = none ∨ Command.settck 0 ∈ cmds := fun hc =>
      hrest.imp_right fun hmem => (List.mem_cons.mp hmem).resolve_left (Ne.symm hc)
    cases c with
    | getinfo =>
      have hpre : GETINFO <+: s.sock.window := by
        rw [hwin']
        exact List.prefix_append _ _
      refine .of_eq (parse_getinfo h.sized.sock hpre) (Ends.bind (xvc_getinfo_ends h hwin') fun _ t ht => ?_)
      exact ih ht.1 ht.2 (hlater (by simp)) (by omega)
    | settck period =>
      have hpre : SETTCK <+: s.sock.window := by
        rw [hwin']
        exact (List.prefix_append SETTCK _).trans (List.prefix_append _ _)
      refine .of_eq (parse_settck h.sized.sock hpre hclen) (Ends.bind (xvc_settck_ends h hwin') fun _ t ht => ?_)
      exact ih ht.2.1 ht.2.2 (hlater (by simpa using ht.1)) (by omega)
    | shift sh =>
      have hpre : SHIFT <+: s.sock.window := by
        rw [hwin']
        exact (List.prefix_append SHIFT _).trans (List.prefix_append _ _)
      have hlen : SHIFT.length + 4 ≤ s.sock.window.length := by
        rw [sh.encode_length] at hclen
        omega
      refine .of_eq (parse_shift h.sized.sock hpre hlen) (Ends.bind (xvc_shift_ends hB h hwin') ?_)
      rintro _ t ⟨⟨x, rfl, hx⟩, ht, hwindow⟩
      refine (ih ht hwindow (hlater (by simp)) (by omega)).mono ?_
      rintro r u ⟨hu, hwindow', hnone, xs, rfl, hxs⟩
      refine ⟨hu, hwindow', hnone, x :: xs, ?_, .cons hx hxs⟩
      rw [List.append_assoc, List.singleton_append]

/-! ## Accesses while it is read back -/

theorem xvc_read_region_ends (hB : TakesScans B) (h : InOrder B s) {r : Region} (hr : r.begin_ < r.end_)
    (hend : r.end_ ≤ MAX_BITS) : Ends (xvc_read_region d r) s InRange fun _ => InOrder B := by
  have hmax : MAX_BITS = 16344 := rfl
  have hsize : BUFFER_SIZE = 4096 := rfl
  refine ends_ite (fun _ => ends_pure h) fun _ => ?_
  refine Ends.bind (region_length_ends hr s) ?_
  rintro n _ ⟨rfl, rfl⟩
  have hrecv := xvc_jtag_ends (@Bounded.recv _ _ B _ (List.replicate BUFFER_SIZE 0) (r.end_ - r.begin_) r.flip_tms h.dev
    (fun _ => by omega) (by omega) (by rw [List.length_replicate]; omega) (hB _ _ (by omega)))
  refine Ends.bind hrecv ?_
  rintro ⟨ok, out⟩ t ⟨hout, ht⟩
  have hout' : out.length = BUFFER_SIZE := hout.trans List.length_replicate
  have horder := ht.in_order h
  have htdo := horder.sized.tdo
  refine Ends.get_bind (Ends.bind (Ends.forUpto
    (fun _ (tdo : List Byte) u => u = t ∧ tdo.length = BUFFER_SIZE) ⟨rfl, htdo⟩ ?_) ?_)
  · rintro off tdo _ hoff ⟨rfl, hlen⟩
    refine Ends.bind (bit_of_ends (by omega) _) ?_
    rintro bit _ ⟨rfl, -⟩
    exact (or_bit_ends (by omega) bit _).mono fun _ _ h => ⟨h.1, h.2.trans hlen⟩
  · rintro tdo _ ⟨rfl, hlen⟩
    exact .of_ok (modify_apply _ _) ⟨⟨horder.sized.sock, horder.sized.tms, horder.sized.tdi, hlen⟩, horder.dev⟩

theorem xvc_read_back_ends (hB : TakesScans B) (h : InOrder B s) {sh : Shift} {c : ShiftCommand} (hc : Accepted sh c) :
    Ends (xvc_read_back d c) s InRange fun _ => InOrder B := by
  have hmax : MAX_BITS = 16344 := rfl
  have hsize : BUFFER_SIZE = 4096 := rfl
  have hfits := sh.fits
  have hbytes := hc.bytes
  have htdo := h.sized.tdo
  refine Ends.get_bind (Ends.bind (memset_zero_ends (by omega) s) ?_)
  rintro tdo _ ⟨rfl, htdo'⟩
  refine Ends.modify_bind (Ends.bind (Ends.forM (InOrder B) ?_ fun r hr t ht => ?_) fun _ t ht => Ends.get_bind ?_)
  · exact ⟨⟨h.sized.sock, h.sized.tms, h.sized.tdi, htdo'.trans htdo⟩, h.dev⟩
  · exact xvc_read_region_ends hB ht (hc.regions r hr).1 (Nat.le_trans (hc.regions r hr).2 hfits)
  · have htdo₂ := ht.sized.tdo
    refine Ends.bind (bytes_at_ends (by omega) t) ?_
    rintro reply _ ⟨rfl, -⟩
    exact ((xvc_reply_ends ht reply).weaken fun _ => Finishes.in_range).mono fun _ _ hu => hu.1

end

/-! ## Windows that are overrun -/

/-- The loop takes complete commands off the window and nothing else, and neither it nor the replies
make an access out of range. -/
structure StaysInWindow {δ : Type} (d : driver δ) (s : Xvc δ) : Prop where
  loop : Ends (xvc_parse d (BUFFER_SIZE + 1) []) s Finishes fun accepted t =>
    t.sock.buffer_begin ≤ t.sock.buffer_end ∧ nextLen t.sock.window = none ∧
      ∃ cmds, s.sock.window = encodeAll cmds ++ t.sock.window ∧
        accepted.map ShiftCommand.bits = (shifts cmds).map Shift.bits ∧ ∀ c ∈ accepted, c.bits ≤ 8 * c.bytes
  replies : Ensures (xvc_parse d (BUFFER_SIZE + 1) []) s fun accepted t =>
    ¬ Faults (accepted.forM (xvc_read_back d)) t .out_of_bounds

/-- So with any driver, in any state. -/
def SafeWindow (w : List Byte) : Prop :=
  ∀ (δ : Type) (d : driver δ) (B : Bounded d), TakesScans B → ∀ s : Xvc δ, InOrder B s → s.sock.window = w →
    StaysInWindow d s

/-- Behind commands that do not stop the server there is a shift that wraps. -/
def Overruns (w : List Byte) : Prop :=
  ∃ cmds rest, w = encodeAll cmds ++ rest ∧ Wraps rest ∧ Command.settck 0 ∉ cmds

section

variable {δ : Type} {d : driver δ} {s : Xvc δ}

theorem stays_in_window {B : Bounded d} (hB : TakesScans B) (h : InOrder B s) (hover : ¬ Overruns s.sock.window) :
    StaysInWindow d s := by
  have hbound := h.sized.sock.bound
  have hwlen := h.sized.sock.window_length
  obtain ⟨cmds, rest, hwin, hrest⟩ := window_commands (w := s.sock.window) (by omega)
  have hlen := congrArg List.length hwin
  rw [List.length_append] at hlen
  have hcount := length_le_encodeAll cmds
  have hstop : nextLen rest = none ∨ Command.settck 0 ∈ cmds := by
    refine hrest.imp_right fun hwraps => ?_
    by_contra hnot
    exact hover ⟨cmds, rest, hwin, hwraps, hnot⟩
  have hends := @xvc_parse_ends _ _ _ _ hB _ _ (BUFFER_SIZE + 1) [] h hwin hstop (by omega)
  refine ⟨hends.mono ?_, hends.ensures.mono ?_⟩
  · rintro accepted t ⟨ht, hwindow, hnone, _, rfl, hxs⟩
    refine ⟨ht.sized.sock.order, by rw [hwindow, hnone], cmds, by rw [hwindow, hwin], accepted_bits hxs, ?_⟩
    intro c hc
    obtain ⟨sh, hsh⟩ := accepted_mem hxs hc
    rw [hsh.bits, hsh.bytes]
    omega
  · rintro accepted t ⟨ht, -, -, _, rfl, hxs⟩
    have hback : Ends (accepted.forM (xvc_read_back d)) t InRange fun _ => InOrder B := by
      refine Ends.forM (InOrder B) ht fun c hc u hu => ?_
      obtain ⟨sh, hsh⟩ := accepted_mem hxs hc
      exact xvc_read_back_ends hB hu hsh
    exact hback.not_faults fun hne => hne rfl

theorem analyze_bitbang_fault {σ : Type} (st : JtagState) {tms : List Byte} {bits : Nat} (h : 8 * tms.length < bits)
    (s : σ) : Faults (analyze_bitbang st tms bits : EStateM Fault σ (List Region × JtagState)) s .out_of_bounds := by
  unfold analyze_bitbang
  refine Faults.bind (Faults.forUpto (k := 8 * tms.length) (fun _ _ => True) trivial h (fun i a t hi _ => ?_) ?_)
  · exact Returns.of_eq_bind (bit_of_ok (by omega) t) (returns_pure trivial)
  · intro a t _
    exact Faults.bind ⟨t, bit_of_error (Nat.lt_irrefl _) t⟩

/-- No byte is copied, and the bits are all read. -/
theorem xvc_shift_overruns (h : Sized s) (hwraps : Wraps s.sock.window) : Faults (xvc_shift d) s .out_of_bounds := by
  have hlen := h.sock.window_length
  have horder := h.sock.order
  have hcomplete := hwraps.complete
  have hcount := hwraps.wraps
  have hlt := le32_lt (s.sock.window.drop SHIFT.length)
  have harg : le32 ((s.sock.window.drop SHIFT.length).take 4) = le32 (s.sock.window.drop SHIFT.length) := by
    rw [le32, le32, List.take_take]
    rfl
  have hbytes : shift_bytes (le32 (s.sock.window.drop SHIFT.length)) = 0 := by
    unfold shift_bytes
    omega
  have htotal : shift_total_len (le32 (s.sock.window.drop SHIFT.length)) = SHIFT.length + 4 := by
    rw [shift_total_len, hbytes]
    rfl
  have htms : (splice s.tms 0 []).length = BUFFER_SIZE := (splice_length _ _ _ (Nat.zero_le _)).trans h.tms
  have hsize : BUFFER_SIZE = 4096 := rfl
  have hnone : ∀ {off}, off ≤ s.sock.window.length →
      (bytes_at s.sock.buffer (s.sock.buffer_begin + off) 0 : XvcProg δ (List Byte)) s = .ok [] s := by
    intro off hoff
    rw [h.sock.bytes_at_window hoff, List.take_zero]
  unfold xvc_shift Faults
  rw [bind_of_ok (get_apply s), bind_of_ok (h.sock.bytes_at_window hcomplete s), harg, hbytes, htotal]
  simp only [Nat.add_assoc s.sock.buffer_begin]
  rw [if_neg (by omega), bind_of_ok (hnone hcomplete), bind_of_ok (memcpy_ok (Nat.zero_le _) s), Nat.add_zero,
    bind_of_ok (hnone hcomplete), bind_of_ok (memcpy_ok (Nat.zero_le _) s), bind_of_ok (modify_apply _ s), xvc_consume,
    bind_of_ok (modify_apply _ _)]
  exact Faults.bind (analyze_bitbang_fault _ (by rw [htms]; omega) _)

end

/-- A server with these bytes in its window, over a board whose TDO is low. -/
def benchXvc (w : List Byte) : Xvc Line where
  jtag := ⟨.TestLogicReset, 0, ⟨[], false, []⟩⟩
  sock := ⟨4, w ++ List.replicate (BUFFER_SIZE - w.length) 0, 0, w.length, true, []⟩
  tms := List.replicate BUFFER_SIZE 0
  tdi := List.replicate BUFFER_SIZE 0
  tdo := List.replicate BUFFER_SIZE 0

def lowBoard : Board := ⟨fun _ => false, fun _ => 0⟩

theorem benchXvc_ok {w : List Byte} (hw : w.length ≤ BUFFER_SIZE) : Ok (benchXvc w) ∧ (benchXvc w).sock.window = w := by
  refine ⟨⟨⟨?_, Nat.zero_le _, hw⟩, rfl, List.length_replicate, List.length_replicate, List.length_replicate⟩, ?_⟩
  · show (w ++ List.replicate (BUFFER_SIZE - w.length) 0).length = BUFFER_SIZE
    rw [List.length_append, List.length_replicate]
    omega
  · show ((w ++ _).take w.length).drop 0 = w
    rw [List.take_left, List.drop_zero]

/-- On a board with no cable only the period 0 stops the server, so it gets to the shift. -/
theorem overruns_unsafe {w : List Byte} (hw : w.length ≤ BUFFER_SIZE) (hover : Overruns w) : ¬ SafeWindow w := by
  obtain ⟨cmds, rest, rfl, hwraps, hzero⟩ := hover
  intro hsafe
  obtain ⟨hok, hwin⟩ := benchXvc_ok hw
  have hstays := hsafe Line (line_driver lowBoard) (lineBounded lowBoard) (fun _ _ _ => trivial) _
    ⟨hok.sized, trivial⟩ hwin
  have hruns : Runs (lineAdapter lowBoard) (benchXvc (encodeAll cmds ++ rest)).jtag.state 0 cmds := by
    rw [runs_iff]
    refine ⟨fun period hmem => ⟨?_, trivial⟩, fun _ _ _ => trivial⟩
    rintro rfl
    exact hzero hmem
  have hstands : (lineAdapter lowBoard).Stands (benchXvc (encodeAll cmds ++ rest)).jtag.state
      (benchXvc (encodeAll cmds ++ rest)).jtag.dev ⟨[], false, []⟩ := ⟨rfl, by simp [Line.Whole]⟩
  rw [List.length_append] at hw
  have hcount := length_le_encodeAll cmds
  obtain ⟨k, hk⟩ : ∃ k, BUFFER_SIZE + 1 = k + 1 + cmds.length := ⟨BUFFER_SIZE - cmds.length, by omega⟩
  obtain ⟨t, xs, hrun, hp⟩ := xvc_parse_steps (lineAdapter lowBoard) hok hwin hstands hruns
  have hfault : Faults (xvc_parse (line_driver lowBoard) (BUFFER_SIZE + 1) []) (benchXvc (encodeAll cmds ++ rest))
      .out_of_bounds := by
    rw [hk]
    unfold Faults
    rw [← hp.window] at hwraps
    rw [hrun, parse_shift hp.globals.sock hwraps.shift hwraps.complete]
    exact (xvc_shift_overruns hp.globals.sized hwraps).bind
  exact hstays.loop.not_faults (fun hne => hne.1 rfl) hfault

/-- Every window is safe but those with a shift whose count wraps. -/
theorem xvc_window_safe_iff {w : List Byte} (hw : w.length ≤ BUFFER_SIZE) : SafeWindow w ↔ ¬ Overruns w := by
  constructor
  · exact fun hsafe hover => overruns_unsafe hw hover hsafe
  · rintro hover δ d B hB s h rfl
    exact stays_in_window hB h hover

/-- No command that fits the window wraps. -/
theorem encode_not_wraps (c : Command) (x : List Byte) : ¬ Wraps (c.encode ++ x) := by
  rintro ⟨hshift, -, hwraps⟩
  cases c with
  | getinfo => exact starts_not_getinfo (.inr hshift) (List.prefix_append _ _)
  | settck period =>
    exact starts_not_settck hshift ((List.prefix_append SETTCK _).trans (List.prefix_append _ _))
  | shift sh =>
    have hfits := sh.fits
    unfold MAX_BITS at hfits
    rw [sh.drop_encode, sh.le32_bits] at hwraps
    omega

theorem encodeAll_not_overruns (cmds : List Command) : ¬ Overruns (encodeAll cmds) := by
  rintro ⟨cmds', rest, heq, hwraps, -⟩
  induction cmds generalizing cmds' with
  | nil =>
    obtain rfl : rest = [] := (List.append_eq_nil_iff.mp heq.symm).2
    exact absurd hwraps.complete (by decide)
  | cons c cmds ih =>
    have hcons : ∀ c cmds, encodeAll (c :: cmds) = c.encode ++ encodeAll cmds := fun _ _ => rfl
    cases cmds' with
    | nil =>
      obtain rfl : encodeAll (c :: cmds) = rest := heq
      rw [hcons] at hwraps
      exact encode_not_wraps c _ hwraps
    | cons c' cmds' =>
      rw [hcons, hcons, List.append_assoc] at heq
      have hlen : c.encode.length = c'.encode.length := by
        have hnext := nextLen_encode c (encodeAll cmds)
        rw [heq, nextLen_encode] at hnext
        exact (Option.some.inj hnext).symm
      exact ih cmds' (List.append_inj heq hlen).2

theorem xvc_window_safe_iff_shifts : (encodeAll [.getinfo, .shift idcodeShift, .shift stayShift]).length ≤ BUFFER_SIZE ∧
    SafeWindow (encodeAll [.getinfo, .shift idcodeShift, .shift stayShift]) :=
  ⟨by decide, (xvc_window_safe_iff (by decide)).mpr (encodeAll_not_overruns _)⟩

/-- A shift of 4294967295 bits, with no vectors. -/
def wrappedShift : List Byte := SHIFT ++ [0xFF, 0xFF, 0xFF, 0xFF]

theorem wrapped_shift_overruns : wrappedShift.length ≤ BUFFER_SIZE ∧ ¬ SafeWindow wrappedShift := by
  have hlen : wrappedShift.length ≤ BUFFER_SIZE := by decide
  have hwraps : Wraps wrappedShift := ⟨List.prefix_append _ _, by decide, by decide⟩
  exact ⟨hlen, overruns_unsafe hlen ⟨[], wrappedShift, rfl, hwraps, List.not_mem_nil⟩⟩

end JtagRemote.Xvc
