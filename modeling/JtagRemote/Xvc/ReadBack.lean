import JtagRemote.Xvc.Parse

/-!
# Reading a window back

The answers of all pending scans are received in the order in which the scans were
sent, and each shift gets its reply.
-/

namespace JtagRemote.Xvc

def Done.reply (x : Done) : List Byte := packBits (x.parts.flatMap Part.reply)

theorem flatMap_reply_length {st : JtagState} {tms : List Byte} {ticks : Nat → Nat} {sh : Shift} {a b : Nat}
    {parts : List Part} (htiles : Tiles st tms a (parts.map Part.region) b) (hok : ∀ p ∈ parts, p.Ok ticks sh) :
    (parts.flatMap Part.reply).length = b - a := by
  induction parts generalizing a with
  | nil =>
    cases htiles
    simp
  | cons p parts ih =>
    rw [List.map_cons] at htiles
    cases htiles with
    | cons hr htail =>
      have := hr.nonempty
      have := htail.le
      rw [List.flatMap_cons, List.length_append, (hok p List.mem_cons_self).reply_length,
        ih htail fun q hq => hok q (List.mem_cons_of_mem _ hq), Part.size]
      omega

theorem Done.Ok.reply_length {ticks : Nat → Nat} {st : JtagState} {x : Done} (h : x.Ok ticks st) :
    (x.parts.flatMap Part.reply).length = x.shift.bits := flatMap_reply_length h.tiles h.parts

/-! ## The tdo buffer -/

/-- The first `n` bytes of the buffer hold these bits, and zeros behind them. -/
structure Front (n : Nat) (tdo : List Byte) (bs : List Bool) : Prop where
  size : tdo.length = BUFFER_SIZE
  holds : Holds (tdo.take n) bs

theorem orBit_take {tdo : List Byte} {n i : Nat} (b : Bool) (hi : i / 8 < n) :
    (orBit tdo i b).take n = orBit (tdo.take n) i b := by
  rw [orBit, orBit, List.take_set, List.getD_eq_getElem?_getD, List.getD_eq_getElem?_getD,
    List.getElem?_take, if_pos hi]

theorem Front.orBit {n : Nat} {tdo : List Byte} {bs : List Bool} (h : Front n tdo bs) (b : Bool)
    (hn : n ≤ BUFFER_SIZE) (hlt : bs.length / 8 < n) : Front n (orBit tdo bs.length b) (bs ++ [b]) := by
  have hsize := h.size
  refine ⟨by rw [orBit_length, hsize], ?_⟩
  rw [orBit_take b hlt]
  exact h.holds.orBit b (by rw [List.length_take]; omega)

section

variable {δ : Type} {board : Board} {d : driver δ} (A : Adapter board d) {s : Xvc δ} {l : Line}
  {n : Nat} {bs : List Bool} {rest : List Scan}

theorem copy_bits {out : List Byte} {tdo : List Byte} {r : Region} {t : List Bool} (hfront : Front n tdo bs)
    (hbegin : bs.length = r.begin_) (hend : r.end_ ≤ 8 * n) (hn : n ≤ BUFFER_SIZE) (hout : Holds out t)
    (hsize : r.end_ - r.begin_ ≤ 8 * out.length) (ht : t.length = r.end_ - r.begin_) :
    Returns (forUpto (r.end_ - r.begin_) tdo fun off tdo => do
      let tdo_bit ← bit_of out off
      or_bit tdo (r.begin_ + off) tdo_bit : XvcProg δ (List Byte)) s fun tdo' s' => s' = s ∧
        Front n tdo' (bs ++ t) := by
  have hloop : Returns (forUpto (r.end_ - r.begin_) tdo fun off tdo => do
      let tdo_bit ← bit_of out off
      or_bit tdo (r.begin_ + off) tdo_bit : XvcProg δ (List Byte)) s fun tdo' s' => s' = s ∧
        Front n tdo' (bs ++ t.take (r.end_ - r.begin_)) := by
    refine Returns.forUpto (fun k tdo' s' => s' = s ∧ Front n tdo' (bs ++ t.take k)) ⟨rfl, by simpa using hfront⟩ ?_
    rintro off tdo' s' hoff ⟨hs', hfront'⟩
    have hsize' := hfront'.size
    have hlen : (bs ++ t.take off).length = r.begin_ + off := by
      rw [List.length_append, List.length_take, hbegin]
      omega
    have hlt : off < t.length := by omega
    have hbit : bitAt out off = t[off] := by rw [hout off, List.getD_eq_getElem _ _ hlt]
    have hnext := hfront'.orBit (bitAt out off) hn (by rw [hlen]; omega)
    rw [hlen, List.append_assoc, hbit, ← List.take_succ_eq_append_getElem] at hnext
    refine Returns.of_eq_bind (bit_of_ok (by omega) _) ?_
    refine ⟨_, _, or_bit_ok (by omega) _ _, hs', ?_⟩
    rwa [hbit]
  rwa [List.take_of_length_le (by omega)] at hloop

/-- A data region is received and copied to its place; a TMS region is left zero. -/
theorem xvc_read_region_spec {p : Part} (hA : A.Stands s.jtag.state s.jtag.dev l)
    (hpending : l.pending = p.scans ++ rest) (hfront : Front n s.tdo bs) (hbegin : bs.length = p.region.begin_)
    (hne : p.region.begin_ < p.region.end_) (hend : p.region.end_ ≤ 8 * n) (hn : n ≤ BUFFER_SIZE)
    (hlen : p.reply.length = p.size) :
    Returns (xvc_read_region d p.region) s fun _ s' => ∃ c tdo, s' = { s with jtag := c, tdo := tdo } ∧
      c.state = s.jtag.state ∧ A.Stands c.state c.dev { l with pending := rest } ∧
      Front n tdo (bs ++ p.reply) := by
  unfold xvc_read_region
  split
  · rename_i htms
    have hsame : { l with pending := rest } = l := by
      have hnone : p.scans = [] := by simp [Part.scans, htms]
      rw [hnone, List.nil_append] at hpending
      rw [← hpending]
    rw [hsame]
    refine returns_pure ⟨s.jtag, s.tdo, rfl, rfl, hA, hfront.size, ?_⟩
    rw [Part.reply, if_pos htms]
    exact hfront.holds.append_false _
  · rename_i hdata
    rw [Part.scans, if_neg hdata, List.singleton_append] at hpending
    rw [Part.reply, if_neg hdata] at hlen ⊢
    refine Returns.of_eq_bind (Region.length_ok hne s) ?_
    have hsize : p.size ≤ 8 * BUFFER_SIZE := by
      unfold Part.size
      omega
    refine Returns.bind (Returns.focus (A.recv hA hpending hsize)) ?_
    rintro ⟨_, out⟩ _ ⟨c, ⟨-, hout, hholds, hst, hstands⟩, rfl⟩
    simp only at hout hholds
    refine Returns.get_bind ?_
    refine Returns.bind (copy_bits hfront hbegin hend hn hholds (by rw [hout]; exact hsize) hlen) ?_
    rintro tdo _ ⟨rfl, hfront'⟩
    exact returns_modify ⟨c, tdo, rfl, hst, hstands, hfront'⟩

theorem read_regions_spec {st : JtagState} {tms : List Byte} {ticks : Nat → Nat} {sh : Shift} {a b : Nat}
    {parts : List Part} (htiles : Tiles st tms a (parts.map Part.region) b)
    (hok : ∀ p ∈ parts, p.Ok ticks sh) (hA : A.Stands s.jtag.state s.jtag.dev l)
    (hpending : l.pending = parts.flatMap Part.scans ++ rest) (hfront : Front n s.tdo bs)
    (hbegin : bs.length = a) (hb : b ≤ 8 * n) (hn : n ≤ BUFFER_SIZE) :
    Returns ((parts.map Part.region).forM (xvc_read_region d)) s fun _ s' =>
      ∃ c tdo, s' = { s with jtag := c, tdo := tdo } ∧ c.state = s.jtag.state ∧
        A.Stands c.state c.dev { l with pending := rest } ∧ Front n tdo (bs ++ parts.flatMap Part.reply) := by
  induction parts generalizing s l bs a with
  | nil =>
    have hsame : { l with pending := rest } = l := by
      rw [List.flatMap_nil, List.nil_append] at hpending
      rw [← hpending]
    rw [hsame]
    refine returns_pure ⟨s.jtag, s.tdo, rfl, rfl, hA, ?_⟩
    simpa using hfront
  | cons p parts ih =>
    rw [List.map_cons] at htiles ⊢
    rw [List.flatMap_cons, List.append_assoc] at hpending
    cases htiles with
    | cons hr htail =>
      have hle := htail.le
      have hne := hr.nonempty
      have hlen := (hok p List.mem_cons_self).reply_length
      refine Returns.bind (xvc_read_region_spec A hA hpending hfront hbegin hne (by omega) hn hlen) ?_
      rintro _ _ ⟨c, tdo, rfl, hst, hstands, hfront'⟩
      have hbegin' : (bs ++ p.reply).length = p.region.end_ := by
        rw [List.length_append, hbegin, hlen, Part.size]
        omega
      refine (ih (l := { l with pending := parts.flatMap Part.scans ++ rest }) htail
        (fun q hq => hok q (List.mem_cons_of_mem _ hq)) hstands rfl hfront' hbegin').mono ?_
      rintro _ _ ⟨c', tdo', rfl, hst', hstands', hfront''⟩
      refine ⟨c', tdo', rfl, hst'.trans hst, hstands', ?_⟩
      rw [List.flatMap_cons, ← List.append_assoc]
      exact hfront''

/-! ## The replies -/

/-- The globals and the line after replies were written. -/
structure ReadBack (s : Xvc δ) (l : Line) (rest : List Scan) (data : List Byte) (s' : Xvc δ) : Prop where
  globals : Ok s'
  window : s'.sock.window = s.sock.window
  written : s'.sock.written = s.sock.written ++ data
  state : s'.jtag.state = s.jtag.state
  stands : A.Stands s'.jtag.state s'.jtag.dev { l with pending := rest }

theorem xvc_read_back_spec {st : JtagState} {x : Done} {ticks : Nat → Nat} (h : Ok s) (hx : x.Ok ticks st)
    (hA : A.Stands s.jtag.state s.jtag.dev l) (hpending : l.pending = x.scans ++ rest) :
    Returns (xvc_read_back d x.command) s fun _ s' => ReadBack A s l rest x.reply s' := by
  have hfits := x.shift.fits
  have htdo := h.tdo
  unfold MAX_BITS at hfits
  have hbytes : (x.shift.bits + 7) / 8 ≤ BUFFER_SIZE := by
    unfold BUFFER_SIZE
    omega
  have hfront : Front ((x.shift.bits + 7) / 8)
      (splice s.tdo 0 (List.replicate ((x.shift.bits + 7) / 8) 0)) [] := by
    refine ⟨?_, ?_⟩
    · rw [splice_length _ _ _ (by simp; omega), htdo]
    · have := take_splice_zero s.tdo (List.replicate ((x.shift.bits + 7) / 8) 0)
      rw [List.length_replicate] at this
      rw [this]
      exact holds_replicate _
  unfold xvc_read_back
  refine Returns.get_bind ?_
  refine Returns.of_eq_bind (memset_zero_ok (by rw [htdo]; exact hbytes) s) ?_
  refine Returns.modify_bind ?_
  refine Returns.bind (read_regions_spec A hx.tiles hx.parts hA hpending hfront rfl
    (by omega) hbytes) ?_
  rintro _ _ ⟨c, tdo, rfl, hst, hstands, hfront'⟩
  refine Returns.get_bind ?_
  have hread : 0 + (x.shift.bits + 7) / 8 ≤ tdo.length := by
    rw [hfront'.size]
    omega
  refine Returns.of_eq_bind (bytes_at_ok hread _) ?_
  have hok : Ok { s with jtag := c, tdo := tdo } := ⟨h.sock, h.alive, h.tms, h.tdi, hfront'.size⟩
  have hreply : (tdo.drop 0).take ((x.shift.bits + 7) / 8) = x.reply := by
    refine eq_packBits ?_ fun i _ => hfront'.holds i
    rw [List.length_take, hx.reply_length, List.length_drop]
    omega
  refine ⟨(), _, xvc_reply_ok hok _, hok.replied _, rfl, ?_, hst, hstands⟩
  exact congrArg (fun b => s.sock.written ++ b) hreply

theorem read_backs_spec {st : JtagState} {xs : List Done} {ticks : Nat → Nat} (h : Ok s)
    (hxs : Session ticks st xs) (hA : A.Stands s.jtag.state s.jtag.dev l)
    (hpending : l.pending = xs.flatMap Done.scans ++ rest) :
    Returns ((xs.map Done.command).forM (xvc_read_back d)) s fun _ s' =>
      ReadBack A s l rest (xs.flatMap Done.reply) s' := by
  induction hxs generalizing s l with
  | nil st =>
    have hsame : { l with pending := rest } = l := by
      rw [List.flatMap_nil, List.nil_append] at hpending
      rw [← hpending]
    refine returns_pure ⟨h, rfl, by simp, rfl, ?_⟩
    rw [hsame]
    exact hA
  | @cons st x xs hx _ ih =>
    rw [List.flatMap_cons, List.append_assoc] at hpending
    refine Returns.bind (xvc_read_back_spec A h hx hA hpending) ?_
    intro _ s₁ h₁
    refine (ih (l := { l with pending := xs.flatMap Done.scans ++ rest }) h₁.globals h₁.stands rfl).mono ?_
    intro _ s₂ h₂
    refine ⟨h₂.globals, h₂.window.trans h₁.window, ?_, h₂.state.trans h₁.state, h₂.stands⟩
    rw [h₂.written, h₁.written, List.flatMap_cons, List.append_assoc]

end

end JtagRemote.Xvc
