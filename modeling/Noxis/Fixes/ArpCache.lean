import Noxis.Fixes.Poll
import Noxis.Lib.Run

/-!
# 23-fixes/net/arp.c: the cache over a whole run

* `Cache`             the driver, with what was announced to it and the order of insertion
* `Cache.arpInput`    `arp_input`, and what it does to the past
* `Behaves`           what one packet has to do in a bounded map that evicts the oldest
* `Inv`               the slots are filled from the front; after an eviction slot 0 is the newest
* `arpCache_iff`      the cache behaves along a run exactly if the run evicts no second time
* `arpCache_fails`    ten addresses
-/

namespace Noxis.Fixes
open Net (Mac ArpEntry ARP_TABLE_MAX)
open Run

/-! ## the cache and its past -/

abbrev ArpTable := Fin ARP_TABLE_MAX → ArpEntry

/-- the arguments of `arp_input` -/
structure ArpFrame where
  pkt : Buffer
  len : Nat

/-- what the packet announces -/
def ArpFrame.binding (f : ArpFrame) : Option (Nat × Mac) :=
  (arpPacket f.pkt f.len).bind fun p => if p.sip = 0 then none else some (p.sip, p.sha)

/-- the addresses in the table, 0 in the free slots -/
def ips (t : ArpTable) : List Nat := (List.finRange ARP_TABLE_MAX).map fun i => (t i).ip

def Resident (t : ArpTable) (ip : Nat) : Prop := ip ≠ 0 ∧ ip ∈ ips t

def Full (t : ArpTable) : Prop := 0 ∉ ips t

instance decidableResident (t : ArpTable) (ip : Nat) : Decidable (Resident t ip) :=
  inferInstanceAs (Decidable (ip ≠ 0 ∧ ip ∈ ips t))

instance decidableFull (t : ArpTable) : Decidable (Full t) := inferInstanceAs (Decidable (0 ∉ ips t))

structure Cache where
  net : NetState
  /-- what was announced, the last first -/
  told : List (Nat × Mac)
  /-- the residents, the one that was inserted first at the front -/
  order : List Nat
  evictions : Nat

def Cache.table (c : Cache) : ArpTable := c.net.host.arpTable

/-- before the first packet -/
def Cache.start (net : NetState) : Cache := ⟨net, [], [], 0⟩

/-- `arp_input`; what is resident no longer leaves the order, and a new resident is behind it -/
def Cache.arpInput (c : Cache) (f : ArpFrame) : Cache :=
  let net := c.net.arpInput f.pkt f.len
  match f.binding with
  | none => { c with net := net }
  | some b =>
    { net := net
      told := b :: c.told
      order := (c.order.filter fun ip => Resident net.host.arpTable ip) ++
        if Resident c.table b.1 then [] else [b.1]
      evictions := c.evictions + if ¬ Resident c.table b.1 ∧ Full c.table then 1 else 0 }

/-! ## the property -/

/-- **a bounded map with oldest-first eviction** takes the packet `f` -/
structure Behaves (c : Cache) (f : ArpFrame) (c' : Cache) : Prop where
  /-- the residents are distinct -/
  distinct : ∀ i j, (c'.table i).ip ≠ 0 → (c'.table i).ip = (c'.table j).ip → i = j
  /-- a resident has the MAC that was announced last -/
  recent : ∀ ip : BitVec 32, Resident c'.table ip.toNat →
    (c'.net.arpLookup ip).1 = c'.told.lookup ip.toNat
  /-- a new address in a full table takes the place of the resident that was inserted first -/
  evicts : ∀ b ∈ f.binding, ¬ Resident c.table b.1 → Full c.table →
    ∃ old, c.order.head? = some old ∧
      ∀ ip, Resident c'.table ip ↔ ip = b.1 ∨ Resident c.table ip ∧ ip ≠ old

/-- `f` does not evict, or it is the first to do so -/
def FirstEviction (c : Cache) (f : ArpFrame) (_ : Cache) : Prop :=
  ∀ b ∈ f.binding, ¬ Resident c.table b.1 → Full c.table → c.evictions = 0

instance decidableFirstEviction (c : Cache) (f : ArpFrame) (c' : Cache) :
    Decidable (FirstEviction c f c') :=
  inferInstanceAs (Decidable (∀ b ∈ f.binding, ¬ Resident c.table b.1 → Full c.table →
    c.evictions = 0))

/-! ## learn on the addresses -/

variable {t : ArpTable} {ip k : Nat} {mac : Mac} {c : Cache} {f : ArpFrame}

theorem getElem_ips (t : ArpTable) (i : Nat) (h : i < (ips t).length) :
    (ips t)[i] = (t ⟨i, by simpa [ips] using h⟩).ip := by
  simp [ips]

theorem length_ips (t : ArpTable) : (ips t).length = ARP_TABLE_MAX := by
  rw [ips, List.length_map, List.length_finRange]

theorem ips_update (t : ArpTable) (i : Fin ARP_TABLE_MAX) (e : ArpEntry) :
    ips (Function.update t i e) = (ips t).set i e.ip := by
  refine List.ext_getElem (by rw [List.length_set, length_ips, length_ips]) fun n h1 h2 => ?_
  rw [getElem_ips, List.getElem_set]
  by_cases hi : i.val = n
  · subst hi
    rw [if_pos rfl, Function.update_self]
  · rw [if_neg hi, Function.update_of_ne fun h => hi (congrArg Fin.val h).symm, getElem_ips]

theorem ip_mem_ips (t : ArpTable) (i : Fin ARP_TABLE_MAX) : (t i).ip ∈ ips t :=
  List.mem_map.mpr ⟨i, List.mem_finRange i, rfl⟩

theorem mem_ips : ip ∈ ips t ↔ ∃ i, (t i).ip = ip := by
  constructor
  · intro h
    obtain ⟨i, -, hi⟩ := List.mem_map.mp h
    exact ⟨i, hi⟩
  · rintro ⟨i, rfl⟩
    exact ip_mem_ips t i

/-- **where an address goes**: to its slot, to the first free one, or to slot 0 -/
theorem learn_cases (h0 : ip ≠ 0) (t : ArpTable) (mac : Mac) :
    ∃ i, learn t ip mac = Function.update t i ⟨ip, mac⟩ ∧
      ((t i).ip = ip ∨
        ip ∉ ips t ∧ (t i).ip = 0 ∧ (∀ j < i, (t j).ip ≠ 0) ∨
        ip ∉ ips t ∧ Full t ∧ i.val = 0) := by
  unfold learn
  rw [if_neg h0]
  cases hk : (List.finRange ARP_TABLE_MAX).find? fun i => decide ((t i).ip = ip) with
  | some i =>
    have hi : (t i).ip = ip := by simpa using List.find?_some hk
    exact ⟨i, congrArg (fun a => Function.update t i ⟨a, mac⟩) hi, .inl hi⟩
  | none =>
    have hnew : ip ∉ ips t := by
      intro hmem
      obtain ⟨i, hi⟩ := mem_ips.mp hmem
      exact List.find?_eq_none.mp hk i (List.mem_finRange i) (decide_eq_true hi)
    cases hf : (List.finRange ARP_TABLE_MAX).find? fun i => decide ((t i).ip = 0) with
    | some i =>
      have hi : (t i).ip = 0 := by simpa using List.find?_some hf
      refine ⟨i, rfl, .inr (.inl ⟨hnew, hi, fun j hj hz => ?_⟩)⟩
      obtain ⟨-, n, hn, hni, hbefore⟩ := List.find?_eq_some_iff_getElem.mp hf
      rw [List.getElem_finRange] at hni
      have hin : n = i.val := congrArg Fin.val hni
      have hb := hbefore j.val (by rw [hin]; exact hj)
      rw [List.getElem_finRange] at hb
      have hne : (!decide ((t j).ip = 0)) = true := hb
      rw [hz] at hne
      exact absurd hne (by decide)
    | none =>
      refine ⟨⟨0, Net.arpTable_pos⟩, rfl, .inr (.inr ⟨hnew, fun hmem => ?_, rfl⟩)⟩
      obtain ⟨i, hi⟩ := mem_ips.mp hmem
      exact List.find?_eq_none.mp hf i (List.mem_finRange i) (decide_eq_true hi)

/-! ## arp_input on the table -/

theorem arpInput_none {s : NetState} (h : f.binding = none) :
    (s.arpInput f.pkt f.len).host.arpTable = s.host.arpTable := by
  unfold ArpFrame.binding at h
  unfold NetState.arpInput
  cases hp : arpPacket f.pkt f.len with
  | none => rfl
  | some p =>
    rw [hp, Option.bind_some] at h
    by_cases h0 : p.sip = 0
    · have hlearn : (s.learn p).host.arpTable = s.host.arpTable := if_pos h0
      simp only
      split_ifs <;> exact hlearn
    · rw [if_neg h0] at h
      exact absurd h (by simp)

theorem arpInput_some {s : NetState} {b : Nat × Mac} (h : f.binding = some b) :
    b.1 ≠ 0 ∧ (s.arpInput f.pkt f.len).host.arpTable = learn s.host.arpTable b.1 b.2 := by
  unfold ArpFrame.binding at h
  unfold NetState.arpInput
  cases hp : arpPacket f.pkt f.len with
  | none =>
    rw [hp] at h
    exact absurd h (by simp)
  | some p =>
    rw [hp, Option.bind_some] at h
    by_cases h0 : p.sip = 0
    · rw [if_pos h0] at h
      exact absurd h (by simp)
    · rw [if_neg h0] at h
      obtain rfl := Option.some.inj h
      refine ⟨h0, ?_⟩
      simp only
      split_ifs <;> rfl

theorem arpLookup_fst (s : NetState) (ip : BitVec 32) :
    (s.arpLookup ip).1 = Net.arpLookup s.host ip := by
  unfold NetState.arpLookup
  cases Net.arpLookup s.host ip with
  | some mac => rfl
  | none =>
    simp only
    split_ifs <;> rfl

/-! ## the invariant -/

/-- **The slots are filled from the front**, and from the first eviction on slot 0 is the newest. -/
structure Cache.Inv (c : Cache) : Prop where
  told : ∀ i, (c.table i).ip ≠ 0 → c.told.lookup (c.table i).ip = some (c.table i).mac
  nodup : c.order.Nodup
  ne : 0 ∉ c.order
  front : c.evictions = 0 → ∃ k, ips c.table = c.order ++ List.replicate k 0
  back : c.evictions ≠ 0 → ∃ first rest, ips c.table = first :: rest ∧ c.order = rest ++ [first]

theorem Cache.Inv.start {net : NetState} (h : ∀ i, (net.host.arpTable i).ip = 0) :
    (Cache.start net).Inv := by
  refine ⟨fun i hi => absurd (h i) hi, List.nodup_nil, List.not_mem_nil, fun _ => ⟨8, ?_⟩,
    fun he => absurd rfl he⟩
  refine List.eq_replicate_iff.mpr ⟨length_ips _, fun ip hip => ?_⟩
  obtain ⟨i, rfl⟩ := mem_ips.mp hip
  exact h i

/-- the residents are those in the order -/
theorem Cache.Inv.resident (h : c.Inv) : Resident c.table ip ↔ ip ∈ c.order := by
  by_cases he : c.evictions = 0
  · obtain ⟨k, hk⟩ := h.front he
    unfold Resident
    rw [hk, List.mem_append, List.mem_replicate]
    constructor
    · rintro ⟨h0, hmem | ⟨-, hz⟩⟩
      · exact hmem
      · exact absurd hz h0
    · intro hmem
      exact ⟨fun h0 => h.ne (h0 ▸ hmem), .inl hmem⟩
  · obtain ⟨first, rest, hips, hord⟩ := h.back he
    have hmem : ip ∈ c.order ↔ ip ∈ ips c.table := by
      rw [hips, hord, List.mem_append, List.mem_singleton, List.mem_cons, or_comm]
    rw [hmem]
    refine ⟨And.right, fun hi => ⟨?_, hi⟩⟩
    rintro rfl
    exact h.ne (hmem.mpr hi)

/-- behind the order the slots are free -/
theorem front_lt {order : List Nat} (hips : ips t = order ++ List.replicate k 0)
    {i : Fin ARP_TABLE_MAX} (h0 : (t i).ip ≠ 0) :
    ∃ h : i.val < order.length, order[i.val] = (t i).ip := by
  have hi : i.val < (ips t).length := by rw [length_ips]; exact i.isLt
  have hget : (ips t)[i.val] = (t i).ip := getElem_ips t i.val hi
  simp only [hips] at hget
  by_cases hlt : i.val < order.length
  · rw [List.getElem_append_left hlt] at hget
    exact ⟨hlt, hget⟩
  · rw [List.getElem_append_right (by omega), List.getElem_replicate] at hget
    exact absurd hget.symm h0

/-- an address is in one slot -/
theorem Cache.Inv.distinct (h : c.Inv) {i j : Fin ARP_TABLE_MAX} (h0 : (c.table i).ip ≠ 0)
    (hij : (c.table i).ip = (c.table j).ip) : i = j := by
  by_cases he : c.evictions = 0
  · obtain ⟨k, hk⟩ := h.front he
    obtain ⟨hi, hgi⟩ := front_lt hk h0
    obtain ⟨hj, hgj⟩ := front_lt hk (hij ▸ h0)
    exact Fin.ext ((List.getElem_inj h.nodup).mp (by rw [hgi, hgj, hij]))
  · obtain ⟨first, rest, hips, hord⟩ := h.back he
    have hnd : (ips c.table).Nodup := by
      have hperm : (first :: rest).Perm c.order := by
        rw [hord]
        exact (List.perm_append_singleton first rest).symm
      rw [hips]
      exact hperm.nodup_iff.mpr h.nodup
    have hlt : ∀ n : Fin ARP_TABLE_MAX, n.val < (ips c.table).length :=
      fun n => by rw [length_ips]; exact n.isLt
    exact Fin.ext ((List.getElem_inj hnd).mp
      ((getElem_ips c.table i (hlt i)).trans (hij.trans (getElem_ips c.table j (hlt j)).symm)))

/-- the first free slot is the one behind the order -/
theorem front_free {order : List Nat} (hips : ips t = order ++ List.replicate k 0) (hne : 0 ∉ order)
    {i : Fin ARP_TABLE_MAX} (h0 : (t i).ip = 0) (hbefore : ∀ j < i, (t j).ip ≠ 0) :
    ∃ k', ips (Function.update t i ⟨ip, mac⟩) = order ++ ip :: List.replicate k' 0 := by
  have hlen : order.length + k = ARP_TABLE_MAX := by
    rw [← length_ips t, hips, List.length_append, List.length_replicate]
  have hi : i.val < (ips t).length := by rw [length_ips]; exact i.isLt
  have hget : (ips t)[i.val] = 0 := (getElem_ips t i.val hi).trans h0
  simp only [hips] at hget
  have hle : order.length ≤ i.val := by
    by_contra hlt
    rw [List.getElem_append_left (by omega)] at hget
    exact hne (hget ▸ List.getElem_mem _)
  have heq : i.val = order.length := by
    by_contra hgt
    have hk : order.length < ARP_TABLE_MAX := by omega
    refine hbefore ⟨order.length, hk⟩ (Fin.lt_def.mpr (by simp only; omega)) ?_
    have hj : order.length < (ips t).length := by rw [length_ips]; exact hk
    rw [← getElem_ips t order.length hj]
    simp only [hips]
    rw [List.getElem_append_right le_rfl, List.getElem_replicate]
  obtain ⟨k', rfl⟩ : ∃ k', k = k' + 1 := ⟨k - 1, by omega⟩
  refine ⟨k', ?_⟩
  rw [ips_update, hips, heq, List.set_append_right _ _ le_rfl, Nat.sub_self, List.replicate_succ,
    List.set_cons_zero]

/-- an update keeps what was told -/
theorem Cache.Inv.told_update (h : c.Inv) {i : Fin ARP_TABLE_MAX}
    (hother : ∀ j ≠ i, (c.table j).ip ≠ ip) (j : Fin ARP_TABLE_MAX)
    (h0 : (Function.update c.table i ⟨ip, mac⟩ j).ip ≠ 0) :
    ((ip, mac) :: c.told).lookup (Function.update c.table i ⟨ip, mac⟩ j).ip =
      some (Function.update c.table i ⟨ip, mac⟩ j).mac := by
  by_cases hj : j = i
  · subst hj
    rw [Function.update_self]
    exact List.lookup_cons_self
  · rw [Function.update_of_ne hj] at h0 ⊢
    rw [List.lookup_cons, beq_false_of_ne (hother j hj)]
    exact h.told j h0

theorem filter_resident {l : List Nat} (h : ∀ x ∈ l, Resident t x) :
    l.filter (fun ip => Resident t ip) = l :=
  List.filter_eq_self.mpr fun x hx => decide_eq_true (h x hx)

/-! ## one announcement -/

/-- **what an announcement does**: its address is resident, or a slot is free, or the one in slot 0
is evicted -/
inductive Cache.Takes (c c' : Cache) (ip : Nat) : Prop
  | update (old : Resident c.table ip) (same : ips c'.table = ips c.table)
      (order : c'.order = c.order) (evictions : c'.evictions = c.evictions)
  | insert (new : ¬ Resident c.table ip) (free : ¬ Full c.table) (first : c.evictions = 0)
      (behind : ∃ k, ips c'.table = (c.order ++ [ip]) ++ List.replicate k 0)
      (order : c'.order = c.order ++ [ip]) (evictions : c'.evictions = 0)
  | evict (new : ¬ Resident c.table ip) (full : Full c.table) {old : Nat} {rest : List Nat}
      (before : ips c.table = old :: rest) (after : ips c'.table = ip :: rest)
      (order : c'.order = rest ++ [ip]) (evictions : c'.evictions = c.evictions + 1)

/-- a full table in the order of insertion -/
theorem Cache.Inv.order_full (h : c.Inv) (hfull : Full c.table) {old : Nat} {rest : List Nat}
    (hcons : ips c.table = old :: rest) :
    c.evictions = 0 ∧ c.order = old :: rest ∨ c.evictions ≠ 0 ∧ c.order = rest ++ [old] := by
  by_cases he : c.evictions = 0
  · obtain ⟨k, hk⟩ := h.front he
    have hk0 : k = 0 := by
      by_contra hk0
      refine hfull ?_
      rw [hk]
      exact List.mem_append_right _ (List.mem_replicate.mpr ⟨hk0, rfl⟩)
    subst hk0
    rw [List.replicate_zero, List.append_nil] at hk
    exact .inl ⟨he, hk.symm.trans hcons⟩
  · obtain ⟨first, rest', hips, hord⟩ := h.back he
    obtain ⟨rfl, rfl⟩ := List.cons.inj (hips.symm.trans hcons)
    exact .inr ⟨he, hord⟩

/-- the one in slot 0 leaves, the others stay -/
theorem Cache.Inv.evicted (h : c.Inv) (hfull : Full c.table) {old : Nat} {rest : List Nat}
    {t' : ArpTable} (hcons : ips c.table = old :: rest) (hafter : ips t' = ip :: rest)
    (hnew : ip ∉ ips c.table) : ¬ Resident t' old ∧ ∀ x ∈ rest, Resident t' x := by
  have hnd : (old :: rest).Nodup := by
    rcases h.order_full hfull hcons with ⟨-, hord⟩ | ⟨-, hord⟩
    · exact hord ▸ h.nodup
    · exact (List.perm_append_singleton old rest).nodup_iff.mp (hord ▸ h.nodup)
  unfold Resident
  rw [hafter]
  constructor
  · rintro ⟨-, hmem⟩
    rcases List.mem_cons.mp hmem with rfl | hmem
    · exact hnew (hcons ▸ List.mem_cons_self)
    · exact (List.nodup_cons.mp hnd).1 hmem
  · intro x hx
    refine ⟨fun hx0 => hfull ?_, List.mem_cons_of_mem _ hx⟩
    rw [hcons, ← hx0]
    exact List.mem_cons_of_mem _ hx

theorem Cache.arpInput_eq {b : Nat × Mac} (hb : f.binding = some b) :
    c.arpInput f =
      { net := c.net.arpInput f.pkt f.len
        told := b :: c.told
        order := (c.order.filter fun ip => Resident (learn c.table b.1 b.2) ip) ++
          if Resident c.table b.1 then [] else [b.1]
        evictions := c.evictions + if ¬ Resident c.table b.1 ∧ Full c.table then 1 else 0 } := by
  have ht : (c.net.arpInput f.pkt f.len).host.arpTable = learn c.table b.1 b.2 := (arpInput_some hb).2
  unfold Cache.arpInput
  rw [hb]
  simp only [ht]

theorem Cache.arpInput_table {b : Nat × Mac} (hb : f.binding = some b) :
    (c.arpInput f).table = learn c.table b.1 b.2 := by
  rw [Cache.arpInput_eq hb]
  exact (arpInput_some hb).2

theorem Cache.Inv.takes (h : c.Inv) {b : Nat × Mac} (hb : f.binding = some b) :
    Cache.Takes c (c.arpInput f) b.1 ∧ ∀ i, ((c.arpInput f).table i).ip ≠ 0 →
      (c.arpInput f).told.lookup ((c.arpInput f).table i).ip = some ((c.arpInput f).table i).mac := by
  obtain ⟨ip, mac⟩ := b
  obtain ⟨hip, -⟩ := arpInput_some (s := c.net) hb
  have htable := Cache.arpInput_table (c := c) hb
  have heq := Cache.arpInput_eq (c := c) hb
  have htold : (c.arpInput f).told = (ip, mac) :: c.told := by rw [heq]
  simp only at hip htable heq
  obtain ⟨i, hlearn, hcase⟩ := learn_cases hip c.table mac
  rw [hlearn] at htable heq
  have hips : ips (c.arpInput f).table = (ips c.table).set i ip := by
    rw [htable, ips_update]
  have horder : (c.arpInput f).order =
      (c.order.filter fun ip => Resident (c.arpInput f).table ip) ++
        if Resident c.table ip then [] else [ip] := by
    rw [htable, heq]
  have hev : (c.arpInput f).evictions =
      c.evictions + if ¬ Resident c.table ip ∧ Full c.table then 1 else 0 := by
    rw [heq]
  generalize c.arpInput f = c' at htable htold hips horder hev ⊢
  rw [htold, htable]
  rcases hcase with hold | ⟨hnew, hfree, hbefore⟩ | ⟨hnew, hfull, h0⟩
  · have hres : Resident c.table ip := ⟨hip, hold ▸ ip_mem_ips c.table i⟩
    have hsame : ips c'.table = ips c.table := by
      have hi : i.val < (ips c.table).length := by rw [length_ips]; exact i.isLt
      have hget : ip = (ips c.table)[i.val] := hold.symm.trans (getElem_ips c.table i.val hi).symm
      rw [hips]
      conv_lhs => rw [hget]
      exact List.set_getElem_self hi
    have hkeep : ∀ x ∈ c.order, Resident c'.table x := by
      intro x hx
      unfold Resident
      rw [hsame]
      exact h.resident.mpr hx
    refine ⟨.update hres hsame ?_ ?_, h.told_update fun j hj hji => ?_⟩
    · rw [horder, if_pos hres, List.append_nil, filter_resident hkeep]
    · rw [hev, if_neg fun hn => hn.1 hres, Nat.add_zero]
    · exact hj (h.distinct (hji ▸ hip) (hji.trans hold.symm))
  · have hres : ¬ Resident c.table ip := fun hr => hnew hr.2
    have hnotfull : ¬ Full c.table := fun hf => hf (hfree ▸ ip_mem_ips c.table i)
    have he : c.evictions = 0 := by
      by_contra he
      obtain ⟨first, rest, hcons, hord⟩ := h.back he
      refine h.ne ?_
      have hmem : 0 ∈ ips c.table := hfree ▸ ip_mem_ips c.table i
      rw [hcons] at hmem
      rw [hord, List.mem_append, List.mem_singleton]
      exact (List.mem_cons.mp hmem).symm
    obtain ⟨k, hk⟩ := h.front he
    obtain ⟨k', hk'⟩ := @front_free _ ip k mac _ hk h.ne _ hfree hbefore
    have hk'' : ips c'.table = (c.order ++ [ip]) ++ List.replicate k' 0 := by
      rw [htable, hk', List.append_assoc]
      rfl
    have hkeep : ∀ x ∈ c.order, Resident c'.table x := by
      intro x hx
      refine ⟨fun h0 => h.ne (h0 ▸ hx), ?_⟩
      rw [hk'']
      exact List.mem_append_left _ (List.mem_append_left _ hx)
    refine ⟨.insert hres hnotfull he ⟨k', hk''⟩ ?_ ?_, h.told_update fun j hj hji => ?_⟩
    · rw [horder, if_neg hres, filter_resident hkeep]
    · rw [hev, if_neg fun hn => hnotfull hn.2, he]
    · exact hnew (hji ▸ ip_mem_ips c.table j)
  · have hres : ¬ Resident c.table ip := fun hr => hnew hr.2
    refine ⟨?_, h.told_update fun j hj hji => hnew (hji ▸ ip_mem_ips c.table j)⟩
    obtain ⟨old, rest, hcons⟩ : ∃ old rest, ips c.table = old :: rest := by
      refine List.exists_cons_of_ne_nil fun hnil => ?_
      have hlen := length_ips c.table
      rw [hnil] at hlen
      exact absurd hlen (by decide)
    have hcons' : ips c'.table = ip :: rest := by
      rw [hips, hcons, h0, List.set_cons_zero]
    obtain ⟨hold, hrest⟩ := h.evicted hfull hcons hcons' hnew
    refine .evict hres hfull hcons hcons' ?_ ?_
    · rw [horder, if_neg hres]
      rcases h.order_full hfull hcons with ⟨-, hord⟩ | ⟨-, hord⟩
      · rw [hord, List.filter_cons_of_neg (by simpa using hold), filter_resident hrest]
      · rw [hord, List.filter_append, filter_resident hrest,
          List.filter_cons_of_neg (by simpa using hold), List.filter_nil, List.append_nil]
    · rw [hev, if_pos ⟨hres, hfull⟩]

/-! ## every packet -/

/-- a packet that announces nothing leaves the table and the past -/
theorem Cache.arpInput_silent (hb : f.binding = none) :
    (c.arpInput f).table = c.table ∧ (c.arpInput f).told = c.told ∧
      (c.arpInput f).order = c.order ∧ (c.arpInput f).evictions = c.evictions := by
  have ht : (c.net.arpInput f.pkt f.len).host.arpTable = c.table := arpInput_none hb
  unfold Cache.arpInput
  rw [hb]
  exact ⟨ht, rfl, rfl, rfl⟩

theorem Cache.Inv.arpInput (h : c.Inv) (f : ArpFrame) : (c.arpInput f).Inv := by
  cases hb : f.binding with
  | none =>
    obtain ⟨ht, htold, hord, hev⟩ := Cache.arpInput_silent (c := c) hb
    generalize c.arpInput f = c' at ht htold hord hev
    refine ⟨?_, hord ▸ h.nodup, hord ▸ h.ne, ?_, ?_⟩
    · rw [ht, htold]
      exact h.told
    · rw [ht, hord, hev]
      exact h.front
    · rw [ht, hord, hev]
      exact h.back
  | some b =>
    obtain ⟨htakes, htold⟩ := h.takes hb
    obtain ⟨hip, -⟩ := arpInput_some (s := c.net) hb
    cases htakes with
    | update old same order evictions =>
      refine ⟨htold, order ▸ h.nodup, order ▸ h.ne, ?_, ?_⟩
      · rw [same, order, evictions]
        exact h.front
      · rw [same, order, evictions]
        exact h.back
    | insert new free first behind order evictions =>
      have hnot : b.1 ∉ c.order := fun hmem => new (h.resident.mpr hmem)
      refine ⟨htold, ?_, ?_, fun _ => by rw [order]; exact behind, fun he => absurd evictions he⟩
      · rw [order, (List.perm_append_singleton b.1 c.order).nodup_iff]
        exact List.nodup_cons.mpr ⟨hnot, h.nodup⟩
      · rw [order, List.mem_append, List.mem_singleton]
        exact not_or.mpr ⟨h.ne, hip.symm⟩
    | evict new full before after order evictions =>
      rename_i old rest
      have hmem : ∀ x ∈ rest, x ∈ c.order := by
        intro x hx
        rcases h.order_full full before with ⟨-, hord⟩ | ⟨-, hord⟩
        · exact hord ▸ List.mem_cons_of_mem _ hx
        · exact hord ▸ List.mem_append_left _ hx
      have hnd : rest.Nodup := by
        rcases h.order_full full before with ⟨-, hord⟩ | ⟨-, hord⟩
        · exact (List.nodup_cons.mp (hord ▸ h.nodup)).2
        · exact (List.nodup_append.mp (hord ▸ h.nodup)).1
      have hnot : b.1 ∉ rest := fun hr => new (h.resident.mpr (hmem _ hr))
      refine ⟨htold, ?_, ?_, fun he => ?_, fun _ => ⟨b.1, rest, after, order⟩⟩
      · rw [order, (List.perm_append_singleton b.1 rest).nodup_iff]
        exact List.nodup_cons.mpr ⟨hnot, hnd⟩
      · rw [order, List.mem_append, List.mem_singleton]
        exact not_or.mpr ⟨fun h0 => h.ne (hmem 0 h0), hip.symm⟩
      · rw [evictions] at he
        exact absurd he (Nat.succ_ne_zero _)

/-- a lookup finds what was told last -/
theorem Cache.Inv.recent (h : c.Inv) (ip : BitVec 32) (hr : Resident c.table ip.toNat) :
    (c.net.arpLookup ip).1 = c.told.lookup ip.toNat := by
  rw [arpLookup_fst]
  unfold Net.arpLookup
  cases hf : (List.finRange ARP_TABLE_MAX).find? fun i =>
      decide ((c.net.host.arpTable i).ip = ip.toNat) && decide ((c.net.host.arpTable i).ip ≠ 0) with
  | none =>
    obtain ⟨h0, hmem⟩ := hr
    obtain ⟨i, hi⟩ := mem_ips.mp hmem
    have hfalse := List.find?_eq_none.mp hf i (List.mem_finRange i)
    have hi' : (c.net.host.arpTable i).ip = ip.toNat := hi
    rw [hi', Bool.and_eq_true, decide_eq_true_eq, decide_eq_true_eq] at hfalse
    exact absurd ⟨rfl, h0⟩ hfalse
  | some i =>
    have hi := List.find?_some hf
    rw [Bool.and_eq_true, decide_eq_true_eq, decide_eq_true_eq] at hi
    have htold := h.told i hi.2
    rw [show (c.table i).ip = ip.toNat from hi.1] at htold
    rw [htold]
    rfl

/-- **One packet**: it behaves exactly if it is not a later eviction. -/
theorem Cache.Inv.behaves_iff (h : c.Inv) (f : ArpFrame) :
    Behaves c f (c.arpInput f) ↔ FirstEviction c f (c.arpInput f) := by
  have hi := h.arpInput f
  constructor
  · intro hb b hmem hnew hfull
    obtain ⟨old, hold, hres⟩ := hb.evicts b hmem hnew hfull
    obtain ⟨htakes, -⟩ := h.takes hmem
    cases htakes with
    | update old same order evictions => exact absurd old hnew
    | insert new free first behind order evictions => exact absurd hfull free
    | evict new full before after order evictions =>
      rename_i first rest
      rcases h.order_full full before with ⟨he, -⟩ | ⟨-, hord⟩
      · exact he
      -- the oldest is behind slot 0, and stays
      · exfalso
        have hlen : rest.length + 1 = 8 := by
          rw [← List.length_cons (a := first), ← before]
          exact length_ips _
        obtain ⟨x, l, rfl⟩ : ∃ x l, rest = x :: l :=
          List.exists_cons_of_ne_nil fun hnil => by rw [hnil] at hlen; exact absurd hlen (by decide)
        rw [hord] at hold
        obtain rfl : x = old := Option.some.inj hold
        have hstay : Resident (c.arpInput f).table x :=
          hi.resident.mpr (order ▸ List.mem_append_left _ List.mem_cons_self)
        have hx : Resident c.table x :=
          h.resident.mpr (hord ▸ List.mem_append_left _ List.mem_cons_self)
        rcases (hres x).mp hstay with rfl | ⟨-, hne⟩
        · exact hnew hx
        · exact hne rfl
  · intro hc
    refine ⟨fun i j => hi.distinct, hi.recent, fun b hmem hnew hfull => ?_⟩
    have he := hc b hmem hnew hfull
    obtain ⟨htakes, -⟩ := h.takes hmem
    cases htakes with
    | update old same order evictions => exact absurd old hnew
    | insert new free first behind order evictions => exact absurd hfull free
    | evict new full before after order evictions =>
      rename_i old rest
      rcases h.order_full full before with ⟨-, hord⟩ | ⟨hne, -⟩
      · have hnd := List.nodup_cons.mp (hord ▸ h.nodup)
        refine ⟨old, by rw [hord]; rfl, fun ip => ?_⟩
        rw [hi.resident, h.resident, order, hord, List.mem_append, List.mem_singleton, List.mem_cons]
        constructor
        · rintro (hr | rfl)
          · exact .inr ⟨.inr hr, fun heq => hnd.1 (heq ▸ hr)⟩
          · exact .inl rfl
        · rintro (rfl | ⟨rfl | hr, hne⟩)
          · exact .inr rfl
          · exact absurd rfl hne
          · exact .inl hr
      · exact absurd he hne

/-! ## the whole run -/

/-- the step function of a run -/
def takeFrame (c : Cache) (f : ArpFrame) : Option Cache := some (c.arpInput f)

theorem behaves_always_iff (hc : c.Inv) (fs : List ArpFrame) :
    Always (stepOf takeFrame) Behaves c fs ↔ Always (stepOf takeFrame) FirstEviction c fs := by
  refine Always.iff_of_inv (fun s f t hs ht => ?_) (fun s f t hs ht _ => ?_) fs c hc
  · obtain rfl : s.arpInput f = t := Option.some.inj ht
    exact hs.behaves_iff f
  · obtain rfl : s.arpInput f = t := Option.some.inj ht
    exact hs.arpInput f

/-- **The ARP cache behaves as a bounded map with oldest-first eviction** at every packet of a run
exactly if no packet of the run evicts after another one did. -/
theorem arpCache_iff (net : NetState) (h : ∀ i, (net.host.arpTable i).ip = 0) (fs : List ArpFrame) :
    Always (stepOf takeFrame) Behaves (Cache.start net) fs ↔
      Always (stepOf takeFrame) FirstEviction (Cache.start net) fs :=
  behaves_always_iff (Cache.Inv.start h) fs

/-! ## ten addresses -/

/-- the network code of a guest of QEMU, after boot -/
def bootNet : NetState :=
  { host := ⟨0x0A00020F, 0xFFFFFF00, 0x0A000202, fun _ => ⟨0, fun _ => 0⟩, fun _ => 0⟩
    nic := Net.boot (fun _ => 0x52) true, pending := false, pendingIp := 0, pendingSince := 0
    pingGotReply := false, pingReplySeq := 0, pingReplyFrom := 0, buf := fun _ => 0, tick := 0
    ifOn := true }

/-- a reply from 10.0.2.`n` -/
def arpReply (n : Byte) : ArpFrame :=
  ⟨fun a => ([0, 1, 8, 0, 6, 4, 0, 2, 0x52, 0x54, 0, 0, 0, n, 10, 0, 2, n, 0x52, 0x54, 0, 0, 0, 15, 10,
    0, 2, 15] : List Byte).getD a 0, 28⟩

theorem binding_arpReply : ((arpReply 30).binding.map Prod.fst) = some 0x0A00021E := by decide

/-- the ninth address takes the place of the first -/
theorem arpCache_iff_nine :
    Always (stepOf takeFrame) Behaves (Cache.start bootNet)
      ([21, 22, 23, 24, 25, 26, 27, 28, 29].map arpReply) :=
  (arpCache_iff bootNet (fun _ => rfl) _).mpr (by decide +kernel)

/-- the tenth takes the place of the ninth -/
theorem arpCache_fails :
    ¬ Always (stepOf takeFrame) Behaves (Cache.start bootNet)
      ([21, 22, 23, 24, 25, 26, 27, 28, 29].map arpReply ++ [arpReply 30]) := by
  rw [behaves_always_iff (Cache.Inv.start fun _ => rfl)]
  refine Always.not_of_exec _
    (fun t _ => decide (¬ Resident t.table 0x0A00021E ∧ Full t.table ∧ t.evictions ≠ 0)) ?_ ?_
  · intro t u _ hbad hc
    obtain ⟨hnew, hfull, he⟩ := of_decide_eq_true hbad
    obtain ⟨b, hb, hip⟩ := Option.map_eq_some_iff.mp binding_arpReply
    exact he (hc b hb (by rw [hip]; exact hnew) hfull)
  · decide +kernel

end Noxis.Fixes
