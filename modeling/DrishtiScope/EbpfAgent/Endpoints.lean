import DrishtiScope.Bpf.Pairing
import DrishtiScope.EbpfAgent.Agent
import DrishtiScope.Enrich.Connections
import DrishtiScope.RealEngine.Engine

open Go Linux Bpf

-- The endpoints of a connection, as they are read from the tables of the kernel and from the arguments of the
-- call that opens it.
namespace EbpfAgent.Endpoints

-- What the host reads from the two bytes of a port, the upper one first.
def swapped (port : UInt16) : UInt16 :=
  UInt16.ofNat <| port.toNat / 256 + port.toNat % 256 * 256

def sockaddr (q : Quad) (port : UInt16) : SockaddrIn where
  family := 2
  port   := swapped port
  addr   := UInt32.ofNat q.word

-- The arguments of the call are recorded, and each of its ends is reported with the same endpoint.
def Captures (k : Kernel) (arch : Arch) (cur : Current) (c : Call) (dst : Bytes) (dport : Int) : Prop :=
  let k' := k.tpSysEnter arch cur c.ctx c.mem
  (∃ st, k'.connectInflight.lookup cur.tid = some st ∧ intToIP st.daddr = dst ∧ st.dport.toNat = dport) ∧ 
  ∀ ret ≠ -115, ¬k.ringFull → ∃ ev, k'.emitted arch cur (.sysExit ⟨c.ctx.id, ret⟩) = [ev] ∧ 
    ev.type = evtConnect ∧ intToIP ev.daddr = dst ∧ ev.dport.toNat = dport

section Bytes

variable {q : Quad} {port : UInt16}

theorem toNat_swapped : (swapped port).toNat = port.toNat / 256 + port.toNat % 256 * 256 := by
  have hp := port.toNat_lt
  rw [swapped, UInt16.toNat_ofNat', Nat.mod_eq_of_lt (by omega)]

theorem swap_swapped : 
    ((swapped port >>> 8) &&& (0xff : UInt16)) ||| ((swapped port &&& (0xff : UInt16)) <<< 8) = port := by
  have hp := port.toNat_lt
  have hm (n : Nat) : n &&& 255 = n % 256 := Nat.and_two_pow_sub_one_eq_mod n 8
  have h₈ : (8 : UInt16).toNat % 16 = 8 := rfl
  have hf : (0xff : UInt16).toNat = 255 := rfl
  have hl : (port.toNat / 256 + port.toNat % 256 * 256) % 256 = port.toNat / 256 := by omega
  have hu : (port.toNat / 256 + port.toNat % 256 * 256) / 2 ^ 8 % 256 = port.toNat % 256 := by omega
  have hs : (port.toNat / 256) <<< 8 < 2 ^ 16 := by
    rw [Nat.shiftLeft_eq]
    omega
  apply UInt16.toNat_inj.mp
  simp only [UInt16.toNat_or, UInt16.toNat_and, UInt16.toNat_shiftLeft, UInt16.toNat_shiftRight, toNat_swapped, 
    h₈, hf, hm, Nat.shiftRight_eq_div_pow, hl, hu]
  rw [Nat.mod_eq_of_lt hs, Nat.or_comm, ← Nat.shiftLeft_add_eq_or_of_lt (Nat.mod_lt _ (by decide)), 
    Nat.shiftLeft_eq]
  omega

theorem intToIP_word : intToIP (UInt32.ofNat q.word) = q.dotted := by
  have hw : (UInt32.ofNat q.word).toNat = q.word := by
    rw [UInt32.toNat_ofNat', Nat.mod_eq_of_lt q.word_lt]
  have hs (i : UInt32) (j : Nat) (hj : i.toNat % 32 = j) : 
      ((UInt32.ofNat q.word) >>> i).toUInt8 = (q.word / 2 ^ j).toUInt8 := by
    apply UInt8.toNat_inj.mp
    rw [UInt32.toNat_toUInt8, UInt32.toNat_shiftRight, hw, Nat.shiftRight_eq_div_pow, hj]
    exact UInt8.toNat_ofNat'.symm
  have hq : [q.word.toUInt8, (q.word / 2 ^ 8).toUInt8, (q.word / 2 ^ 16).toUInt8, (q.word / 2 ^ 24).toUInt8] = 
      [q.a, q.b, q.c, q.d] := q.ofWord_word
  simp only [List.cons.injEq, and_true] at hq
  obtain ⟨ha, hb, hc, hd⟩ := hq
  simp only [intToIP, Quad.dotted, hs 0 0 rfl, hs 8 8 rfl, hs 16 16 rfl, hs 24 24 rfl, Nat.pow_zero, 
    Nat.div_one, ha, hb, hc, hd]

theorem parseHexIPPort_v4 : 
    Enrich.parseHexIPPort (Endpoint.render ⟨.v4 q, port⟩) = some (q.dotted, (port.toNat : Int)) := by
  rw [Enrich.Connections.parseHexIPPort_render, Addr.ip, Quad.string_v4InV6]

theorem parseHexAddr_render : 
    RealEngine.parseHexAddr (Endpoint.render ⟨.v4 q, port⟩) = (q.dotted, (port.toNat : Int)) := by
  have hp := port.toNat_lt
  have hi : Bytes.parseInt (hexPad 4 port.toNat) 16 32 = ((port.toNat : Int), none) := 
    parseInt_hexPad (by decide) (by omega)
  rw [RealEngine.parseHexAddr, Enrich.Connections.splitByte_render]
  simp only [Addr.render, parseUint_hexPad (by decide : 0 < 8) q.word_lt, hi, Quad.ofWord_word, 
    Quad.string_bytes]

end Bytes

section Capture

variable {k : Kernel} {arch : Arch} {cur : Current} {c : Call} {q : Quad} {port : UInt16}

theorem connectState?_sockaddr (h : c.mem.sockaddr (c.ctx.args.get 1) = some (sockaddr q port)) : 
    ∃ st, c.connectState? = some st ∧ st.daddr = UInt32.ofNat q.word ∧ st.dport = port := by
  simp [Call.connectState?, h, sockaddr, swap_swapped]

theorem isTarget_congr {k' : Kernel} (hc : k'.config = k.config) (ht : k'.targets = k.targets) : 
    k'.isTarget cur = k.isTarget cur := by
  rw [Kernel.isTarget, Kernel.isTarget, hc, ht]

-- The call is counted and its arguments are recorded, but nothing is reported yet.
theorem tpSysEnter_connect (ht : k.isTarget cur) (hn : c.nr = arch.sysConnect) : 
    k.tpSysEnter arch cur c.ctx c.mem = (k.countEnter cur c.nr).enterConnect cur c.ctx c.mem := by
  rw [Kernel.tpSysEnter_eq ht rfl]
  have hn : c.ctx.id.toUInt64.toUInt32 = arch.sysConnect := hn
  rw [if_neg (hn ▸ Kernel.sysOpenat_ne_sysConnect.symm), if_pos hn]
  rfl

theorem captures_sockaddr (ht : k.isTarget cur) (hn : c.nr = arch.sysConnect) 
    (hr : k.connectInflight.Room cur.tid) (hs : c.mem.sockaddr (c.ctx.args.get 1) = some (sockaddr q port)) : 
    Captures k arch cur c q.dotted port.toNat := by
  obtain ⟨st, hst, ha, hp⟩ := connectState?_sockaddr hs
  have hd : intToIP st.daddr = q.dotted := ha ▸ intToIP_word
  have hc : (k.tpSysEnter arch cur c.ctx c.mem).config = k.config := Kernel.tpSysEnter_frame.config
  have ht' : (k.tpSysEnter arch cur c.ctx c.mem).isTarget cur := 
    isTarget_congr hc Kernel.tpSysEnter_targets ▸ ht
  rw [Captures]
  rw [tpSysEnter_connect ht hn] at ht' ⊢ 
  have hl : ((k.countEnter cur c.nr).enterConnect cur c.ctx c.mem).connectInflight.lookup cur.tid = some st := 
    Kernel.slots_enterConnect (Kernel.countEnter_connectInflight.symm ▸ hr) hst
  have he : ((k.countEnter cur c.nr).enterConnect cur c.ctx c.mem).events = k.events := 
    Kernel.enterConnect_events.trans Kernel.countEnter_events
  refine ⟨⟨st, hl, hd, hp ▸ rfl⟩, fun ret hret hf => ?_⟩
  have hf : ¬((k.countEnter cur c.nr).enterConnect cur c.ctx c.mem).ringFull := by
    rwa [Kernel.ringFull, he]
  refine ⟨Kernel.connected cur ret st, ?_, rfl, hd, hp ▸ rfl⟩
  have hn' : c.ctx.id.toUInt64.toUInt32 = arch.sysConnect := hn
  rw [Kernel.emitted_sysExit, if_pos ⟨ht', hf⟩, Kernel.exitEvents, 
    if_neg (hn' ▸ Kernel.sysOpenat_ne_sysConnect.symm), if_pos hn', if_pos hret, hl]
  rfl

-- All decoders return the address and the port that the kernel has.
theorem decoders_agree : 
    Enrich.parseHexIPPort (Endpoint.render ⟨.v4 q, port⟩) = some (q.dotted, (port.toNat : Int)) ∧ 
    RealEngine.parseHexAddr (Endpoint.render ⟨.v4 q, port⟩) = (q.dotted, (port.toNat : Int)) ∧ 
    (∀ (k : Kernel) (arch : Arch) (cur : Current) (c : Call), 
      k.isTarget cur → c.nr = arch.sysConnect → k.connectInflight.Room cur.tid → 
      c.mem.sockaddr (c.ctx.args.get 1) = some (sockaddr q port) → Captures k arch cur c q.dotted port.toNat) ∧ 
    ∀ q₀ q₁ q₂ q₃ : Quad, Enrich.parseHexIPPort (Endpoint.render ⟨.v6 q₀ q₁ q₂ q₃, port⟩) = 
      some (IP.string (q₀.bytes ++ q₁.bytes ++ q₂.bytes ++ q₃.bytes), (port.toNat : Int)) :=
  ⟨parseHexIPPort_v4, parseHexAddr_render, fun _ _ _ _ => captures_sockaddr, fun _ _ _ _ => 
    Enrich.Connections.parseHexIPPort_render⟩

end Capture

section Loopback

def loopbackCall : Call where
  ctx    := Pairing.connectCtx 3
  mem    := Pairing.addressed <| sockaddr ⟨127, 0, 0, 1⟩ 80
  stored := false

def observing : Kernel :=
  { Kernel.empty with config := Pairing.targeting 51 }

theorem decoders_agree_loopback : 
    Enrich.parseHexIPPort (str "0100007F:0050") = some (str "127.0.0.1", 80) ∧ 
    RealEngine.parseHexAddr (str "0100007F:0050") = (str "127.0.0.1", 80) ∧ 
    Captures observing .x86_64 Pairing.mainThread loopbackCall (str "127.0.0.1") 80 := by
  have hr : Endpoint.render ⟨.v4 ⟨127, 0, 0, 1⟩, 80⟩ = str "0100007F:0050" := by decide +kernel
  have hd : Quad.dotted ⟨127, 0, 0, 1⟩ = str "127.0.0.1" := by decide +kernel
  have ⟨h₁, h₂, h₃, _⟩ := @decoders_agree ⟨127, 0, 0, 1⟩ 80
  rw [hr, hd] at h₁ h₂
  have h₃ := h₃ observing .x86_64 Pairing.mainThread loopbackCall (by decide) (by decide) (by decide) rfl
  exact ⟨h₁, h₂, hd ▸ h₃⟩

end Loopback
end EbpfAgent.Endpoints
