import Noxis.Net.Ip

/-!
# net/net.c, net/ne2000.c: frames that are sent

The two kernels 23-fixes and 25-osfs11 build a frame in one static buffer, `frame` of `eth_send`.
`ne2000_send` makes it at least 60 bytes long and a whole number of words, and the card sends that
many bytes of its staging buffer.  25-osfs11 writes only half of them there.

* `ethSend`       the frame that is given to the card;
* `Port.moved`    how much of it the data port takes;
* `after`         a history of transmissions and receptions;
* `sent_iff`      when the frame does not depend on the history.
-/

namespace Noxis.Net

def NE_FRAME_MAX : Nat := 1536

/-- the kernels that have the driver; `counted` is 25-osfs11 with a `port_read` and a `port_write`
that take a number of words, as the driver means it -/
inductive Port where
  | fixes
  | osfs11
  | counted
  deriving DecidableEq, Repr

/-- the words that are moved for `words`: those of kliba.asm take a number of bytes, `shr ecx, 1` -/
def Port.moved : Port → Nat → Nat
  | .fixes, words => words
  | .osfs11, words => words / 2
  | .counted, words => words

/-- `sram` is the card's staging buffer, `swRing` what was received and not yet read -/
structure Nic where
  frame : Buffer
  hostMac : Mac
  nicPresent : Bool
  sram : Buffer
  swRing : List (List Byte)

/-! ## the code -/

/-- `words` words of `len` bytes, an odd last byte with a zero behind it -/
def writeWords (sram : Buffer) (words len : Nat) (buf : Buffer) : Buffer := fun a =>
  if a < words * 2 then if a < len then buf a else 0 else sram a

/-- `remote_write` to the staging buffer; 25-osfs11 looks at the length first -/
def remoteWrite (port : Port) (sram : Buffer) (len : Nat) (buf : Buffer) : Buffer :=
  if port ≠ .fixes ∧ NE_FRAME_MAX < (len + 1) / 2 * 2 then sram
  else writeWords sram (port.moved ((len + 1) / 2)) len buf

/-- the longest frame that `ne2000_send` takes -/
def maxLen : Port → Nat
  | .fixes => NE_FRAME_MAX - 22
  | .osfs11 | .counted => NE_FRAME_MAX - 16

/-- minimum ethernet frame, whole words -/
def wireLen (len : Nat) : Nat :=
  let n := if len < 60 then 60 else len
  if n % 2 = 1 then n + 1 else n

/-- `ne2000_send`, with the bytes that the card transmits; `none` for -1 -/
def ne2000Send (port : Port) (s : Nic) (frame : Buffer) (len : Nat) : Nic × Option (List Byte) :=
  if ¬ s.nicPresent then (s, none)
  else if maxLen port < len then (s, none)
  else
    let n := wireLen len
    let sram := remoteWrite port s.sram n frame
    ({ s with sram := sram }, some ((List.range n).map sram))

/-- the three fields of the header -/
def ethHeader (frame : Buffer) (dst hostMac : Mac) (ethertype : BitVec 16) : Buffer := fun a =>
  if h : a < 6 then dst ⟨a, h⟩
  else if h : a - 6 < 6 then hostMac ⟨a - 6, h⟩
  else if a = 12 then BitVec.ofNat 8 (ethertype.toNat / 256)
  else if a = 13 then BitVec.ofNat 8 ethertype.toNat
  else frame a

def ethSend (port : Port) (s : Nic) (dst : Mac) (ethertype : BitVec 16) (payload : Buffer)
    (plen : Nat) : Nic × Option (List Byte) :=
  if ¬ s.nicPresent then (s, none)
  else if 1500 < plen then (s, none)
  else
    let frame := physCopy (ethHeader s.frame dst s.hostMac ethertype) 14 payload 0 plen
    ne2000Send port { s with frame := frame } frame (14 + plen)

/-- what happens before: a call of `eth_send`, a frame that the interrupt handler has queued, a call of
`ne2000_recv` -/
inductive History where
  | send (dst : Mac) (ethertype : BitVec 16) (payload : Buffer) (plen : Nat)
  | receive (bytes : List Byte)
  | recv

def Nic.step (port : Port) (s : Nic) : History → Nic
  | .send dst ethertype payload plen => (ethSend port s dst ethertype payload plen).1
  | .receive bytes => { s with swRing := s.swRing ++ [bytes] }
  | .recv => { s with swRing := s.swRing.tail }

def after (port : Port) (s : Nic) (l : List History) : Nic := l.foldl (Nic.step port) s

/-- the static buffers at the start are zero -/
def boot (hostMac : Mac) (nicPresent : Bool) : Nic := ⟨fun _ => 0, hostMac, nicPresent, fun _ => 0, []⟩

/-! ## what the card is given -/

section
variable {port : Port} {s : Nic} {dst mac : Mac} {ethertype : BitVec 16} {payload buf sram : Buffer}
  {plen len a n : Nat} {present : Bool}

theorem wireLen_eq (len : Nat) : wireLen len = (if len < 60 then 60 else len + len % 2) := by
  unfold wireLen
  by_cases h : len < 60
  · rw [if_pos h, if_pos h]
    rfl
  · rw [if_neg h, if_neg h]
    show (if len % 2 = 1 then len + 1 else len) = _
    by_cases hodd : len % 2 = 1
    · rw [if_pos hodd, hodd]
    · rw [if_neg hodd]
      omega

theorem le_wireLen (len : Nat) : len ≤ wireLen len := by
  rw [wireLen_eq]
  split <;> omega

/-- nothing is added to a frame that is long enough and even -/
theorem wireLen_eq_iff : wireLen len = len ↔ 60 ≤ len ∧ len % 2 = 0 := by
  rw [wireLen_eq]
  split <;> omega

theorem wireLen_le (h : len ≤ 1514) : wireLen len ≤ 1514 := by
  rw [wireLen_eq]
  split <;> omega

/-- a byte that the data port is given -/
theorem remoteWrite_lt (ha : a < n) (hm : a < port.moved ((n + 1) / 2) * 2) (hn : n ≤ 1514) :
    remoteWrite port sram n buf a = buf a := by
  have hfit : ¬ (port ≠ .fixes ∧ NE_FRAME_MAX < (n + 1) / 2 * 2) := by
    unfold NE_FRAME_MAX
    omega
  unfold remoteWrite writeWords
  rw [if_neg hfit, if_pos hm, if_pos ha]

/-- a byte that it is not given -/
theorem remoteWrite_ge (hm : port.moved ((n + 1) / 2) * 2 ≤ a) :
    remoteWrite port sram n buf a = sram a := by
  unfold remoteWrite writeWords
  by_cases hlong : port ≠ .fixes ∧ NE_FRAME_MAX < (n + 1) / 2 * 2
  · rw [if_pos hlong]
  · rw [if_neg hlong, if_neg (by omega)]

/-- the buffer of `eth_send` with a new frame in it -/
def nextFrame (s : Nic) (dst : Mac) (ethertype : BitVec 16) (payload : Buffer) (plen : Nat) : Buffer :=
  physCopy (ethHeader s.frame dst s.hostMac ethertype) 14 payload 0 plen

/-- the bytes of the frame do not depend on the old one -/
theorem nextFrame_lt {s' : Nic} (hmac : s'.hostMac = s.hostMac) (ha : a < 14 + plen) :
    nextFrame s' dst ethertype payload plen a = nextFrame s dst ethertype payload plen a := by
  unfold nextFrame physCopy
  rw [hmac]
  by_cases hp : 14 ≤ a
  · rw [if_pos ⟨hp, ha⟩, if_pos ⟨hp, ha⟩]
  · rw [if_neg fun h => hp h.1, if_neg fun h => hp h.1]
    unfold ethHeader
    by_cases h1 : a < 6
    · rw [dif_pos h1, dif_pos h1]
    rw [dif_neg h1, dif_neg h1]
    by_cases h2 : a - 6 < 6
    · rw [dif_pos h2, dif_pos h2]
    rw [dif_neg h2, dif_neg h2]
    by_cases h3 : a = 12
    · rw [if_pos h3, if_pos h3]
    · rw [if_neg h3, if_neg h3, if_pos (by omega), if_pos (by omega)]

/-- behind it the old one is left -/
theorem nextFrame_ge (ha : 14 + plen ≤ a) :
    nextFrame s dst ethertype payload plen a = s.frame a := by
  unfold nextFrame
  rw [physCopy_not_mem (by omega)]
  unfold ethHeader
  rw [dif_neg (by omega), dif_neg (by omega), if_neg (by omega), if_neg (by omega)]

theorem nextFrame_payload (ha : a < plen) :
    nextFrame s dst ethertype payload plen (14 + a) = payload a := by
  unfold nextFrame
  rw [physCopy_mem ha, Nat.zero_add]

/-- what the card's staging buffer has in it then -/
def nextSram (port : Port) (s : Nic) (dst : Mac) (ethertype : BitVec 16) (payload : Buffer)
    (plen : Nat) : Buffer :=
  remoteWrite port s.sram (wireLen (14 + plen)) (nextFrame s dst ethertype payload plen)

/-- **What is sent**: the staging buffer, up to the length on the wire. -/
theorem ethSend_sram (port : Port) (dst : Mac) (ethertype : BitVec 16) (payload : Buffer)
    (hp : s.nicPresent = true) (hlen : plen ≤ 1500) :
    ethSend port s dst ethertype payload plen =
      ({ s with
          frame := nextFrame s dst ethertype payload plen
          sram := nextSram port s dst ethertype payload plen },
        some ((List.range (wireLen (14 + plen))).map
          (nextSram port s dst ethertype payload plen))) := by
  have hmax : ¬ maxLen port < 14 + plen := by
    cases port with
    | fixes =>
      show ¬ 1536 - 22 < 14 + plen
      omega
    | osfs11 | counted =>
      show ¬ 1536 - 16 < 14 + plen
      omega
  unfold ethSend ne2000Send
  rw [if_neg (not_not.mpr hp), if_neg (by omega)]
  simp only
  rw [if_neg (not_not.mpr hp), if_neg hmax]
  rfl

/-- where whole frames are moved, it is the buffer of `eth_send` -/
theorem ethSend_sent (port : Port) (dst : Mac) (ethertype : BitVec 16) (payload : Buffer)
    (hport : port ≠ .osfs11) (hp : s.nicPresent = true) (hlen : plen ≤ 1500) :
    ∃ sram, ethSend port s dst ethertype payload plen =
      ({ s with frame := nextFrame s dst ethertype payload plen, sram := sram },
        some ((List.range (wireLen (14 + plen))).map (nextFrame s dst ethertype payload plen))) := by
  have hwire : wireLen (14 + plen) ≤ 1514 := wireLen_le (by omega)
  refine ⟨nextSram port s dst ethertype payload plen, ?_⟩
  rw [ethSend_sram port dst ethertype payload hp hlen]
  refine congrArg (fun l => (_, some l)) (List.map_congr_left fun a ha => ?_)
  have ha' := List.mem_range.mp ha
  refine remoteWrite_lt ha' ?_ hwire
  cases port with
  | fixes | counted =>
    show a < (wireLen (14 + plen) + 1) / 2 * 2
    omega
  | osfs11 => exact absurd rfl hport

theorem ethSend_none (h : s.nicPresent = true → 1500 < plen) :
    ethSend port s dst ethertype payload plen = (s, none) := by
  unfold ethSend
  by_cases hp : s.nicPresent = true
  · rw [if_neg (not_not.mpr hp), if_pos (h hp)]
  · rw [if_pos hp]

/-! ## histories -/

theorem step_same (port : Port) (s : Nic) (e : History) :
    (s.step port e).hostMac = s.hostMac ∧ (s.step port e).nicPresent = s.nicPresent := by
  cases e with
  | send dst ethertype payload plen =>
    show (ethSend port s dst ethertype payload plen).1.hostMac = s.hostMac ∧
      (ethSend port s dst ethertype payload plen).1.nicPresent = s.nicPresent
    by_cases h : s.nicPresent = true → 1500 < plen
    · rw [ethSend_none h]
      exact ⟨rfl, rfl⟩
    · have hp : s.nicPresent = true := by
        by_contra hn
        exact h fun hc => absurd hc hn
      have hlen : plen ≤ 1500 := by
        by_contra hn
        exact h fun _ => by omega
      rw [ethSend_sram port dst ethertype payload hp hlen]
      exact ⟨rfl, rfl⟩
  | receive bytes => exact ⟨rfl, rfl⟩
  | recv => exact ⟨rfl, rfl⟩

theorem after_same (port : Port) (l : List History) (s : Nic) :
    (after port s l).hostMac = s.hostMac ∧ (after port s l).nicPresent = s.nicPresent := by
  induction l generalizing s with
  | nil => exact ⟨rfl, rfl⟩
  | cons e l ih =>
    obtain ⟨h1, h2⟩ := ih (s.step port e)
    obtain ⟨h3, h4⟩ := step_same port s e
    exact ⟨h1.trans h3, h2.trans h4⟩

/-- a frame of the full size, all its payload 0xFF -/
def fullFrame : History := .send (fun _ => 0) 0 (fun _ => 0xFF) 1500

/-- it is left in the buffer -/
theorem after_fullFrame (ha : a < 1500) :
    (after port (boot mac true) [fullFrame]).frame (14 + a) = 0xFF := by
  have hpres : (boot mac true).nicPresent = true := rfl
  show (ethSend port (boot mac true) (fun _ => 0) 0 (fun _ => 0xFF) 1500).1.frame (14 + a) = 0xFF
  rw [ethSend_sram port (fun _ => 0) 0 (fun _ => 0xFF) hpres (le_refl 1500)]
  show nextFrame (boot mac true) (fun _ => 0) 0 (fun _ => 0xFF) 1500 (14 + a) = 0xFF
  rw [nextFrame_payload ha]

/-- 25-osfs11 never writes the second half of the longest frame -/
theorem after_sram (l : List History) (s : Nic) (ha : 756 ≤ a) :
    (after .osfs11 s l).sram a = s.sram a := by
  induction l generalizing s with
  | nil => rfl
  | cons e l ih =>
    refine (ih (s.step .osfs11 e)).trans ?_
    cases e with
    | send dst ethertype payload plen =>
      show (ethSend .osfs11 s dst ethertype payload plen).1.sram a = s.sram a
      by_cases h : s.nicPresent = true → 1500 < plen
      · rw [ethSend_none h]
      · obtain ⟨hp, hlen⟩ := Classical.not_imp.mp h
        have hwire : wireLen (14 + plen) ≤ 1514 := wireLen_le (by omega)
        rw [ethSend_sram .osfs11 dst ethertype payload hp (by omega)]
        refine remoteWrite_ge ?_
        show (wireLen (14 + plen) + 1) / 2 / 2 * 2 ≤ a
        omega
    | receive bytes => rfl
    | recv => rfl

/-- **nothing but the frame is sent**: no byte is added to it; in 25-osfs11, what is behind the half
that is written was never written -/
def Clean (port : Port) (plen : Nat) : Prop :=
  if port = .osfs11 then 1497 ≤ plen else 46 ≤ plen ∧ plen % 2 = 0

instance decidableClean (port : Port) (plen : Nat) : Decidable (Clean port plen) :=
  inferInstanceAs (Decidable (if port = .osfs11 then 1497 ≤ plen else 46 ≤ plen ∧ plen % 2 = 0))

/-- with every word moved, the padding alone comes from earlier frames -/
theorem sent_whole_iff (hport : port ≠ .osfs11) (mac : Mac) (hlen : plen ≤ 1500) :
    (∀ h h' : List History,
      (ethSend port (after port (boot mac true) h) dst ethertype payload plen).2 =
        (ethSend port (after port (boot mac true) h') dst ethertype payload plen).2) ↔
      46 ≤ plen ∧ plen % 2 = 0 := by
  constructor
  · intro h
    by_contra hpad
    -- the first byte behind the frame is sent too
    have hlt : 14 + plen < wireLen (14 + plen) := by
      have hne : wireLen (14 + plen) ≠ 14 + plen := by
        rw [Ne, wireLen_eq_iff]
        omega
      exact lt_of_le_of_ne (le_wireLen _) hne.symm
    have hplen : plen < 1500 := by
      by_contra hge
      omega
    have hpres : (boot mac true).nicPresent = true := rfl
    have hpres' : (after port (boot mac true) [fullFrame]).nicPresent = true :=
      (after_same port [fullFrame] (boot mac true)).2
    obtain ⟨sram, h1⟩ := ethSend_sent port dst ethertype payload hport hpres hlen
    obtain ⟨sram', h2⟩ := ethSend_sent port dst ethertype payload hport hpres' hlen
    have heq := h [] [fullFrame]
    rw [show after port (boot mac true) [] = boot mac true from rfl, h1, h2, Option.some.injEq] at heq
    have hbyte := (List.map_inj_left.mp heq) (14 + plen) (List.mem_range.mpr hlt)
    rw [nextFrame_ge le_rfl, nextFrame_ge le_rfl, after_fullFrame hplen] at hbyte
    exact absurd hbyte (show ¬ (0 : Byte) = 0xFF by decide)
  · rintro ⟨h46, heven⟩ h h'
    obtain ⟨hm, hp⟩ := after_same port h (boot mac true)
    obtain ⟨hm', hp'⟩ := after_same port h' (boot mac true)
    obtain ⟨sram, h1⟩ := ethSend_sent port dst ethertype payload hport hp hlen
    obtain ⟨sram', h2⟩ := ethSend_sent port dst ethertype payload hport hp' hlen
    have hwire : wireLen (14 + plen) = 14 + plen := wireLen_eq_iff.mpr ⟨by omega, by omega⟩
    rw [h1, h2, hwire]
    refine congrArg some (List.map_congr_left fun a ha => ?_)
    exact nextFrame_lt (hm.trans hm'.symm) (List.mem_range.mp ha)

/-- with half of the words moved, the second half of the frame does too -/
theorem sent_half_iff (mac : Mac) (hlen : plen ≤ 1500) :
    (∀ h h' : List History,
      (ethSend .osfs11 (after .osfs11 (boot mac true) h) dst ethertype payload plen).2 =
        (ethSend .osfs11 (after .osfs11 (boot mac true) h') dst ethertype payload plen).2) ↔
      1497 ≤ plen := by
  have hwire := wireLen_eq (14 + plen)
  constructor
  · intro h
    by_contra hshort
    obtain ⟨k, hk⟩ : ∃ k, k = (wireLen (14 + plen) + 1) / 2 / 2 * 2 := ⟨_, rfl⟩
    have hrange : 14 ≤ k ∧ k < 756 ∧ k < wireLen (14 + plen) := by
      split at hwire <;> omega
    have hpres' : (after .osfs11 (boot mac true) [fullFrame]).nicPresent = true :=
      (after_same .osfs11 [fullFrame] (boot mac true)).2
    have heq := h [] [fullFrame]
    rw [show after .osfs11 (boot mac true) [] = boot mac true from rfl,
      ethSend_sram .osfs11 dst ethertype payload (s := boot mac true) rfl hlen,
      ethSend_sram .osfs11 dst ethertype payload hpres' hlen, Option.some.injEq] at heq
    -- the first byte that is not written
    have hbyte := (List.map_inj_left.mp heq) k (List.mem_range.mpr hrange.2.2)
    have hmoved : Port.osfs11.moved ((wireLen (14 + plen) + 1) / 2) * 2 ≤ k := hk.ge
    rw [nextSram, nextSram, remoteWrite_ge hmoved, remoteWrite_ge hmoved] at hbyte
    have hfull : (after .osfs11 (boot mac true) [fullFrame]).sram k = 0xFF := by
      show (ethSend .osfs11 (boot mac true) (fun _ => 0) 0 (fun _ => 0xFF) 1500).1.sram k = 0xFF
      rw [ethSend_sram .osfs11 (fun _ => 0) 0 (fun _ => 0xFF) (s := boot mac true) rfl (le_refl 1500)]
      show nextSram .osfs11 (boot mac true) (fun _ => 0) 0 (fun _ => 0xFF) 1500 k = 0xFF
      have hin : k < Port.osfs11.moved ((wireLen (14 + 1500) + 1) / 2) * 2 := hrange.2.1
      have hlt : k < wireLen (14 + 1500) := lt_trans hrange.2.1 (by decide)
      rw [nextSram, remoteWrite_lt hlt hin (wireLen_le (by omega)), show k = 14 + (k - 14) by omega,
        nextFrame_payload (by omega)]
    rw [hfull] at hbyte
    exact absurd hbyte (show ¬ (0 : Byte) = 0xFF by decide)
  · intro hlong h h'
    obtain ⟨hm, hp⟩ := after_same .osfs11 h (boot mac true)
    obtain ⟨hm', hp'⟩ := after_same .osfs11 h' (boot mac true)
    rw [ethSend_sram .osfs11 dst ethertype payload hp hlen,
      ethSend_sram .osfs11 dst ethertype payload hp' hlen]
    refine congrArg some (List.map_congr_left fun a ha => ?_)
    have ha' := List.mem_range.mp ha
    have hn : wireLen (14 + plen) ≤ 1514 := wireLen_le (by omega)
    by_cases hhalf : a < Port.osfs11.moved ((wireLen (14 + plen) + 1) / 2) * 2
    · have hhalf' : a < (wireLen (14 + plen) + 1) / 2 / 2 * 2 := hhalf
      rw [nextSram, nextSram, remoteWrite_lt ha' hhalf hn, remoteWrite_lt ha' hhalf hn]
      exact nextFrame_lt (hm.trans hm'.symm) (by omega)
    · have hge : 756 ≤ a := by
        have hhalf' : ¬ a < (wireLen (14 + plen) + 1) / 2 / 2 * 2 := hhalf
        split at hwire <;> omega
      rw [nextSram, nextSram, remoteWrite_ge (by omega), remoteWrite_ge (by omega),
        after_sram h _ hge, after_sram h' _ hge]

/-- **Transmitted frames leak nothing**, whatever was sent and received before, exactly if nothing but
the frame is sent. -/
theorem sent_iff (port : Port) (mac : Mac) (present : Bool) (dst : Mac) (ethertype : BitVec 16)
    (payload : Buffer) (plen : Nat) :
    (∀ h h' : List History,
      (ethSend port (after port (boot mac present) h) dst ethertype payload plen).2 =
        (ethSend port (after port (boot mac present) h') dst ethertype payload plen).2) ↔
      (present = true → plen ≤ 1500 → Clean port plen) := by
  by_cases hsend : present = true ∧ plen ≤ 1500
  · obtain ⟨rfl, hlen⟩ := hsend
    have hclean : (true = true → plen ≤ 1500 → Clean port plen) ↔ Clean port plen :=
      ⟨fun h => h rfl hlen, fun h _ _ => h⟩
    rw [hclean]
    unfold Clean
    by_cases hport : port = .osfs11
    · subst hport
      rw [if_pos rfl]
      exact sent_half_iff mac hlen
    · rw [if_neg hport]
      exact sent_whole_iff hport mac hlen
  · have hnone : ∀ s : Nic, s.nicPresent = present → s.nicPresent = true → 1500 < plen := by
      intro s hs ht
      by_contra hge
      exact hsend ⟨hs.symm.trans ht, by omega⟩
    constructor
    · intro _ hp hlen
      exact absurd ⟨hp, hlen⟩ hsend
    · intro _ h h'
      rw [ethSend_none (hnone _ (after_same port h (boot mac present)).2),
        ethSend_none (hnone _ (after_same port h' (boot mac present)).2)]

end

/-! ## an ARP request after a long frame -/

/-- in both kernels an ARP request carries bytes of the frame before it -/
theorem sent_fails :
    (¬ ∀ h h' : List History,
      (ethSend .fixes (after .fixes (boot (fun _ => 0x52) true) h) (fun _ => 0xFF) 0x0806
        (fun _ => 0) 28).2 =
      (ethSend .fixes (after .fixes (boot (fun _ => 0x52) true) h') (fun _ => 0xFF) 0x0806
        (fun _ => 0) 28).2) ∧
    ¬ ∀ h h' : List History,
      (ethSend .osfs11 (after .osfs11 (boot (fun _ => 0x52) true) h) (fun _ => 0xFF) 0x0806
        (fun _ => 0) 28).2 =
      (ethSend .osfs11 (after .osfs11 (boot (fun _ => 0x52) true) h') (fun _ => 0xFF) 0x0806
        (fun _ => 0) 28).2 := by
  rw [sent_iff, sent_iff]
  constructor
  · intro h
    exact absurd (h rfl (by decide)) (by decide)
  · intro h
    exact absurd (h rfl (by decide)) (by decide)

end Noxis.Net
