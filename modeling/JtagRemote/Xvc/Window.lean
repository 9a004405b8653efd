import JtagRemote.Xvc.Tick

/-!
# The window of the XVC server

A shift that is complete is taken off the window, whatever the driver does with
it; a window that holds none stays.
-/

namespace JtagRemote.Xvc

variable {δ : Type} {s : Xvc δ}

/-! ## What sending leaves alone -/

def Aside {α : Type} (p : XvcProg δ α) : Prop := Keeps (fun s : Xvc δ => s.sock) p

theorem xvc_jtag_aside {α : Type} (p : EStateM Fault (Jtag δ) α) : Aside (xvc_jtag p) := keeps_focus fun _ _ => rfl

theorem xvc_tms_region_aside (d : driver δ) (r : Region) : Aside (xvc_tms_region d r) := by
  unfold xvc_tms_region
  refine Keeps.get_bind fun s => ?_
  refine (keeps_forUpto fun off x => (bit_of_keeps _ _).bind fun _ => (or_bit_keeps _ _ _).bind fun _ =>
    keeps_pure _).bind fun x => (region_length_keeps r).bind fun length => ?_
  refine keeps_ite ?_ ?_
  · exact (xvc_jtag_aside _).bind fun _ => (xvc_jtag_aside _).bind fun _ => keeps_pure _
  · exact (xvc_jtag_aside _).bind fun _ => keeps_pure _

theorem xvc_data_region_aside (d : driver δ) (r : Region) : Aside (xvc_data_region d r) := by
  unfold xvc_data_region
  refine Keeps.get_bind fun s => ?_
  refine (keeps_forUpto fun off b => (bit_of_keeps _ _).bind fun _ => or_bit_keeps _ _ _).bind fun b => ?_
  exact (region_length_keeps r).bind fun _ => (xvc_jtag_aside _).bind fun _ => keeps_pure _

theorem xvc_region_aside (d : driver δ) (bits : Nat) (r : Region) : Aside (xvc_region d bits r) :=
  (assert_keeps _).bind fun _ => keeps_ite (xvc_tms_region_aside d r) (xvc_data_region_aside d r)

/-! ## What a command takes -/

theorem xvc_sock_spec {α : Type} {p : EStateM Fault Sock α} {P : α → Sock → Prop} (hp : Ensures p s.sock P) :
    Ensures (xvc_sock p) s fun a t => ∃ k, P a k ∧ t = { s with sock := k } := hp.focus

theorem xvc_reply_sock (data : List Byte) (s : Xvc δ) :
    Ensures (xvc_reply data) s fun _ t => t.sock = { s.sock with written := t.sock.written } := by
  have hwrite : Ensures (write_full data) s.sock fun _ k => k = { s.sock with written := k.written } := by
    unfold write_full
    refine Ensures.get_bind (ensures_ite (fun _ => ?_) fun _ => ensures_pure rfl)
    exact Ensures.set_bind (ensures_pure rfl)
  unfold xvc_reply
  refine Ensures.bind (xvc_sock_spec hwrite) ?_
  rintro ok _ ⟨k, hk, rfl⟩
  exact ((assert_keeps _ : Aside (assert ok)) _).mono fun _ t ht => by rw [ht]; exact hk

theorem xvc_getinfo_takes (s : Xvc δ) : Ensures xvc_getinfo s fun _ t =>
    t.sock = { s.sock.consume GETINFO.length with written := t.sock.written } :=
  Ensures.modify_bind (xvc_reply_sock _ _)

theorem xvc_settck_takes (d : driver δ) (s : Xvc δ) : Ensures (xvc_settck d) s fun _ t =>
    t.sock = { s.sock.consume (SETTCK.length + 4) with written := t.sock.written } := by
  unfold xvc_settck
  refine Ensures.get_bind (Ensures.bind (bytes_at_spec _ _ _ s) ?_)
  rintro arg s ⟨rfl, -, -⟩
  refine Ensures.modify_bind (ensures_ite (fun _ => ensures_throw) fun _ => ?_)
  refine Ensures.bind (xvc_jtag_aside _ _) fun _ t ht => ?_
  have hsock : t.sock = s.sock.consume (SETTCK.length + 4) := ht
  refine (xvc_reply_sock arg t).mono fun _ u hu => ?_
  rw [hu, hsock]

/-- The bytes of a complete shift are consumed. -/
theorem xvc_shift_takes (d : driver δ) (h : s.sock.Ok) (hlen : SHIFT.length + 4 ≤ s.sock.window.length)
    (hfits : shift_total_len (le32 (s.sock.window.drop SHIFT.length)) ≤ s.sock.window.length) :
    Ensures (xvc_shift d) s fun r t => r.isSome = true ∧
      t.sock = s.sock.consume (shift_total_len (le32 (s.sock.window.drop SHIFT.length))) := by
  have hwlen := h.window_length
  have horder := h.order
  have harg : le32 ((s.sock.window.drop SHIFT.length).take 4) = le32 (s.sock.window.drop SHIFT.length) := by
    rw [le32, le32, List.take_take]
    rfl
  unfold xvc_shift
  refine Ensures.get_bind (Ensures.of_eq_bind (h.bytes_at_window hlen s) ?_)
  rw [harg, if_neg (by omega)]
  refine Ensures.bind (bytes_at_spec _ _ _ s) ?_
  rintro _ _ ⟨rfl, -, -⟩
  refine Ensures.bind (memcpy_spec _ _ _ _) ?_
  rintro tms _ ⟨rfl, -, -⟩
  refine Ensures.bind (bytes_at_spec _ _ _ _) ?_
  rintro _ _ ⟨rfl, -, -⟩
  refine Ensures.bind (memcpy_spec _ _ _ _) ?_
  rintro tdi s ⟨rfl, -, -⟩
  refine Ensures.modify_bind (Ensures.modify_bind ?_)
  refine Ensures.bind ((analyze_bitbang_keeps _ _ _ : Aside (analyze_bitbang _ _ _)) _) fun rs t ht => ?_
  refine Ensures.bind (keeps_forM (xvc_region_aside d _) t) fun _ t₁ ht₁ => Ensures.get_bind ?_
  refine Ensures.bind ((assert_keeps _ : Aside (assert _)) t₁) fun _ t₂ ht₂ => ?_
  exact ensures_pure ⟨rfl, (ht₂.trans ht₁).trans ht⟩

/-! ## The whole window -/

/-- After a command that took `n` bytes. -/
theorem consumed {k k' : Sock} {n : Nat} (h : k.Ok) (hn : n ≤ k.window.length)
    (heq : k' = { k.consume n with written := k'.written }) : k'.Ok ∧ k'.window = k.window.drop n := by
  have hk := h.consume hn
  rw [← Sock.window_consume, heq]
  exact ⟨⟨hk.size, hk.order, hk.bound⟩, rfl⟩

/-- The parser takes all whole commands. -/
theorem xvc_parse_splits (d : driver δ) (h : s.sock.Ok) (fuel : Nat) (acc : List ShiftCommand) :
    Ensures (xvc_parse d fuel acc) s fun _ t => t.sock.Ok ∧ ∃ us, framer.Splits s.sock.window us t.sock.window := by
  induction fuel generalizing s acc with
  | zero => exact ensures_throw
  | succ fuel ih =>
    -- what is left after the first command is split by the rounds that follow
    have hgo : ∀ {n : Nat} {t : Xvc δ} (acc : List ShiftCommand), nextLen s.sock.window = some n →
        t.sock = { s.sock.consume n with written := t.sock.written } →
        Ensures (xvc_parse d fuel acc) t fun _ u => u.sock.Ok ∧
          ∃ us, framer.Splits s.sock.window us u.sock.window := by
      intro n t acc hn hsock
      obtain ⟨hok, hwin⟩ := consumed h (framer.le hn) hsock
      refine (ih hok acc).mono ?_
      rintro _ u ⟨hu, us, hsplits⟩
      rw [hwin] at hsplits
      exact ⟨hu, _, .unit hn hsplits⟩
    cases hn : nextLen s.sock.window with
    | none =>
      intro _ t ht
      rw [parse_stop h hn] at ht
      cases ht
      exact ⟨h, [], .stop hn⟩
    | some n =>
      have hnext := hn
      unfold nextLen at hnext
      split at hnext
      · rename_i hpre
        cases hnext
        rw [Ensures, parse_getinfo h hpre]
        exact Ensures.bind (xvc_getinfo_takes s) fun _ t ht => hgo acc hn ht
      · split at hnext
        · rename_i hc
          cases hnext
          rw [Ensures, parse_settck h hc.1 hc.2]
          exact Ensures.bind (xvc_settck_takes d s) fun _ t ht => hgo acc hn ht
        · split at hnext
          · rename_i hc
            cases hnext
            rw [Ensures, parse_shift h hc.1 hc.2.1]
            refine Ensures.bind (xvc_shift_takes d h hc.2.1 hc.2.2) ?_
            rintro r t ⟨hsome, hsock⟩
            obtain ⟨c, rfl⟩ := Option.isSome_iff_exists.mp hsome
            exact hgo (acc ++ [c]) hn (by rw [hsock])
          · cases hnext

/-- A window that is one command is taken as a whole. -/
theorem xvc_parse_takes (d : driver δ) (h : s.sock.Ok) {u : List Byte} (hu : framer.next u = some u.length)
    (hwin : s.sock.window = u) (fuel : Nat) (acc : List ShiftCommand) :
    Ensures (xvc_parse d fuel acc) s fun _ t => t.sock.Ok ∧ t.sock.window = [] := by
  refine (xvc_parse_splits d h fuel acc).mono ?_
  rintro _ t ⟨hok, us, hsplits⟩
  rw [hwin] at hsplits
  exact ⟨hok, (hsplits.unique (.whole hu)).2⟩

/-! ## Reading back -/

theorem xvc_read_region_aside (d : driver δ) (r : Region) : Aside (xvc_read_region d r) := by
  unfold xvc_read_region
  refine keeps_ite (keeps_pure _) ((region_length_keeps r).bind fun _ => (xvc_jtag_aside _).bind fun p => ?_)
  refine Keeps.get_bind fun s => (keeps_forUpto fun off tdo => ?_).bind fun _ => keeps_modify fun _ => rfl
  exact (bit_of_keeps _ _).bind fun _ => or_bit_keeps _ _ _

theorem xvc_read_back_sock (d : driver δ) (c : ShiftCommand) (s : Xvc δ) :
    Ensures (xvc_read_back d c) s fun _ t => t.sock = { s.sock with written := t.sock.written } := by
  unfold xvc_read_back
  refine Ensures.get_bind (Ensures.bind (memcpy_spec _ _ _ s) ?_)
  rintro tdo s ⟨rfl, -, -⟩
  refine Ensures.modify_bind ?_
  refine Ensures.bind (keeps_forM (xvc_read_region_aside d) _) fun _ t ht => Ensures.get_bind ?_
  refine Ensures.bind (bytes_at_spec _ _ _ t) ?_
  rintro reply t ⟨rfl, -, -⟩
  have hsock : t.sock = s.sock := ht
  refine (xvc_reply_sock reply t).mono fun _ u hu => ?_
  rw [hu, hsock]

theorem read_backs_sock (d : driver δ) (cs : List ShiftCommand) (s : Xvc δ) :
    Ensures (cs.forM (xvc_read_back d)) s fun _ t => t.sock = { s.sock with written := t.sock.written } := by
  induction cs generalizing s with
  | nil => exact ensures_pure rfl
  | cons c cs ih =>
    refine Ensures.bind (xvc_read_back_sock d c s) fun _ t ht => (ih t).mono fun _ u hu => ?_
    rw [hu, ht]

end JtagRemote.Xvc
