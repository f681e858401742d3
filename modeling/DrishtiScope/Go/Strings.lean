import DrishtiScope.Go.Utf8
import Mathlib.Data.List.DropRight
import Mathlib.Tactic.Common

namespace Go

namespace Rune

-- `unicode.IsSpace`: the property White_Space.
def spaces : List Rune := [
  '\t', '\n', '\x0b', '\x0c', '\r', ' ', '\u0085', '\u00a0', '\u1680', '\u2000', '\u2001', '\u2002',
  '\u2003', '\u2004', '\u2005', '\u2006', '\u2007', '\u2008', '\u2009', '\u200a', '\u2028',
  '\u2029', '\u202f', '\u205f', '\u3000'
]

def isSpace (r : Rune) : Bool :=
  r ∈ spaces

-- `unicode.IsControl`: the category Cc.
def isControl (r : Rune) : Bool :=
  r.toNat < 0x20 || (0x7f ≤ r.toNat && r.toNat < 0xa0)

end Rune

-- The tables of the `unicode` package that change with the Unicode version of the toolchain. The
-- proofs fix what is common to all versions: the ASCII part, and that neither a space nor U+FFFD is
-- ever a letter or a digit.
class Unicode where
  isLetter : Rune → Bool
  isDigit : Rune → Bool
  toLower : Rune → Rune
  -- The representative of the rune's orbit under `unicode.SimpleFold`.
  fold : Rune → Rune
  isLetter_ascii : ∀ r, r.toNat < 0x80 → isLetter r = r.isAlpha
  isDigit_ascii : ∀ r, r.toNat < 0x80 → isDigit r = r.isDigit
  toLower_ascii : ∀ r, r.toNat < 0x80 → toLower r = r.toLower
  fold_ascii : ∀ r, r.toNat < 0x80 → fold r = r.toLower
  isLetter_not_space : ∀ r, isLetter r → ¬r.isSpace
  isDigit_not_space : ∀ r, isDigit r → ¬r.isSpace
  isLetter_error : isLetter Rune.error = false
  isDigit_error : isDigit Rune.error = false

-- The tables restricted to ASCII.
@[reducible]
def Unicode.ascii : Unicode where
  isLetter r := r.isAlpha
  isDigit r := r.isDigit
  toLower r := r.toLower
  fold r := r.toLower
  isLetter_ascii _ _ := rfl
  isDigit_ascii _ _ := rfl
  toLower_ascii _ _ := rfl
  fold_ascii _ _ := rfl
  isLetter_not_space r h := by
    have h' : Rune.spaces.all (!·.isAlpha) := by decide
    simpa [Rune.isSpace, h] using mt (List.all_eq_true.mp h' r)
  isDigit_not_space r h := by
    have h' : Rune.spaces.all (!·.isDigit) := by decide
    simpa [Rune.isSpace, h] using mt (List.all_eq_true.mp h' r)
  isLetter_error := by decide
  isDigit_error := by decide

-- The letters of Latin-1 that are not ASCII.
def Rune.isLatinLetter (r : Rune) : Bool :=
  let n := r.toNat
  n = 0xaa || n = 0xb5 || n = 0xba || (0xc0 ≤ n && n ≤ 0xff && n ≠ 0xd7 && n ≠ 0xf7)

def Rune.latinToLower (r : Rune) : Rune :=
  if 0xc0 ≤ r.toNat ∧ r.toNat ≤ 0xde ∧ r.toNat ≠ 0xd7 then Char.ofNat (r.toNat + 32) else r.toLower

-- The tables restricted to Latin-1.
@[reducible]
def Unicode.latin : Unicode where
  isLetter r := r.isAlpha || r.isLatinLetter
  isDigit r := r.isDigit
  toLower r := r.latinToLower
  fold r := r.latinToLower
  isLetter_ascii r h := by
    have hl : r.isLatinLetter = false := by
      simp only [Rune.isLatinLetter]
      grind
    rw [hl, Bool.or_false]
  isDigit_ascii _ _ := rfl
  toLower_ascii r h := if_neg fun hl => by omega
  fold_ascii r h := if_neg fun hl => by omega
  isLetter_not_space r h := by
    have h' : Rune.spaces.all (fun r => !(r.isAlpha || r.isLatinLetter)) := by decide
    simpa [Rune.isSpace, h] using mt (List.all_eq_true.mp h' r)
  isDigit_not_space r h := by
    have h' : Rune.spaces.all (!·.isDigit) := by decide
    simpa [Rune.isSpace, h] using mt (List.all_eq_true.mp h' r)
  isLetter_error := by decide
  isDigit_error := by decide

namespace Bytes

def hasPrefix (s p : Bytes) : Bool :=
  p.isPrefixOf s

def hasSuffix (s p : Bytes) : Bool :=
  p.isSuffixOf s

def trimPrefix (s p : Bytes) : Bytes :=
  if s.hasPrefix p then s.drop p.length else s

def trimSuffix (s p : Bytes) : Bytes :=
  if s.hasSuffix p then s.take (s.length - p.length) else s

-- `strings.ToUpper` of an ASCII string.
def toUpper (s : Bytes) : Bytes :=
  s.map fun b => if 97 ≤ b ∧ b ≤ 122 then b - 32 else b

-- `strings.Contains`.
def contains (s sub : Bytes) : Bool :=
  s.tails.any (sub.isPrefixOf ·)

-- `strings.ReplaceAll` with one byte on either side.
def replaceByte (s : Bytes) (old new : UInt8) : Bytes :=
  s.map fun b => if b = old then new else b

-- `strings.Trim` with a cutset of one byte.
def trimByte (s : Bytes) (b : UInt8) : Bytes :=
  (s.dropWhile (· == b)).rdropWhile (· == b)

-- The rune at the end of the string if there is a valid encoding of one.
def decodeLastRune? (s : Bytes) : Option Rune :=
  [1, 2, 3, 4].findSome? fun n =>
    (decodeRune? (s.rtake n)).filter (·.utf8Size = n)

def trimLeftSpace (s : Bytes) : Bytes :=
  go s.length s
where
  go : Nat → Bytes → Bytes
    | 0, s     => s
    | n + 1, s =>
      match s.decodeRune? with
      | some r => if r.isSpace then go n (s.drop r.utf8Size) else s
      | none   => s

def trimRightSpace (s : Bytes) : Bytes :=
  go s.length s
where
  go : Nat → Bytes → Bytes
    | 0, s     => s
    | n + 1, s =>
      match s.decodeLastRune? with
      | some r => if r.isSpace then go n (s.rdrop r.utf8Size) else s
      | none   => s

-- `strings.TrimSpace`.
def trimSpace (s : Bytes) : Bytes :=
  s.trimLeftSpace.trimRightSpace

-- `strings.ToLower`: an invalid byte becomes U+FFFD.
def toLower [Unicode] (s : Bytes) : Bytes :=
  encodeAll <| s.runes.map Unicode.toLower

-- `strings.EqualFold`.
def equalFold [Unicode] (s t : Bytes) : Bool :=
  s.runes.map Unicode.fold = t.runes.map Unicode.fold

theorem hasPrefix_iff {s p : Bytes} : s.hasPrefix p ↔ p <+: s := by
  simp [hasPrefix]

theorem contains_iff {s sub : Bytes} : s.contains sub ↔ sub <:+: s := by
  simp [contains, List.infix_iff_prefix_suffix, and_comm]

-- A text that stands between two bytes of which the first is a rune, and the second begins one, is
-- converted by itself.
theorem contains_toLower [Unicode] {s sub t : Bytes} {r : Rune} {b x : UInt8} (hr : r.encode = [b]) 
    (hx : x.IsUTF8FirstByte) : contains (toLower (s ++ b :: (sub ++ x :: t))) (toLower sub) := by
  have hb : b.IsUTF8FirstByte := mem_tail_encode_not_first hr |>.left
  rw [contains_iff]
  simp only [toLower, runes_append hb, runes_cons hr, runes_append hx, List.map_append, List.map_cons, 
    encodeAll_append, encodeAll_cons]
  exact ⟨_ ++ _, _, by simp only [List.append_assoc]; rfl⟩

theorem isSuffix_of_decodeLastRune? {s : Bytes} {r : Rune} (h : s.decodeLastRune? = some r) : 
    r.encode <:+ s := by
  obtain ⟨n, _, hn⟩ := List.exists_of_findSome?_eq_some h
  simp only [Option.filter_eq_some_iff, decide_eq_true_eq] at hn
  have hp := encode_isPrefix hn.left
  have hl : (s.rtake n).length ≤ r.encode.length := by
    simp only [r.length_encode, hn.right, List.rtake, List.length_drop]
    omega
  rw [hp.eq_of_length_le hl]
  exact ⟨s.rdrop n, by simp [List.rdrop, List.rtake]⟩

-- The string does not contain the encoding of a space.
def SpaceFree (s : Bytes) : Prop :=
  ∀ r : Rune, r.isSpace → ¬r.encode <:+: s

theorem trimRightSpace.go_eq_self {s : Bytes} {n : Nat} (h : s.SpaceFree) : 
    trimRightSpace.go n s = s := by
  cases n
  case zero => rfl
  case succ =>
    rw [trimRightSpace.go]
    split <;> try rfl
    case _ r hd => exact if_neg fun hr => h r hr (isSuffix_of_decodeLastRune? hd).isInfix

theorem trimLeftSpace_eq_self {s : Bytes} (h : ∀ r : Rune, r.isSpace → ¬r.encode <+: s) : 
    s.trimLeftSpace = s := by
  rw [trimLeftSpace]
  cases s.length
  case zero => rfl
  case succ =>
    rw [trimLeftSpace.go]
    split <;> try rfl
    case _ r hd => exact if_neg fun hr => h r hr (encode_isPrefix hd)

theorem trimSpace_eq_self {s : Bytes} (h : s.SpaceFree) : s.trimSpace = s := by
  rw [trimSpace, trimLeftSpace_eq_self fun r hr hp => h r hr hp.isInfix, trimRightSpace,
    trimRightSpace.go_eq_self h]

-- No encoding ends in another one.
theorem encode_suffix_unique {s : Bytes} {r₁ r₂ : Rune} (h₁ : r₁.encode <:+ s) (h₂ : r₂.encode <:+ s) : 
    r₁ = r₂ := by
  wlog hl : r₁.encode.length ≤ r₂.encode.length generalizing r₁ r₂
  case inr => exact (this h₂ h₁ (not_le.mp hl).le).symm
  obtain ⟨u, hu⟩ := List.suffix_of_suffix_length_le h₁ h₂ hl
  cases u
  case nil      => exact encode_prefix_unique ⟨[], by simpa using hu⟩ List.prefix_rfl
  case cons b u =>
    cases he : r₁.encode
    case nil      => exact absurd he r₁.encode_ne_nil
    case cons c v =>
      have hc := mem_tail_encode_not_first he |>.left
      exact absurd hc <| mem_tail_encode_not_first hu.symm |>.right c (by simp [he])

theorem decodeLastRune?_eq_some_iff {s : Bytes} {r : Rune} : 
    s.decodeLastRune? = some r ↔ r.encode <:+ s := by
  refine ⟨isSuffix_of_decodeLastRune?, fun h => ?_⟩
  cases hd : s.decodeLastRune?
  case some r' => rw [encode_suffix_unique (isSuffix_of_decodeLastRune? hd) h]
  case none    =>
    obtain ⟨t, rfl⟩ := h
    have hu : r.utf8Size ∈ [1, 2, 3, 4] := by simpa using r.utf8Size_eq
    have ht : List.rtake (t ++ r.encode) r.utf8Size = r.encode := by 
      simp [List.rtake]
    have hn := List.findSome?_eq_none_iff.mp hd r.utf8Size hu
    rw [ht, decodeRune?_eq List.prefix_rfl] at hn
    simp at hn

theorem rdrop_append_encode {t : Bytes} {r : Rune} : List.rdrop (t ++ r.encode) r.utf8Size = t := by
  simp [List.rdrop]

-- A space at the end is removed.
theorem trimRightSpace.go_append_encodeAll {t : Bytes} {ws : List Rune} {n : Nat} (hn : ws.length ≤ n) 
    (hw : ∀ r ∈ ws, r.isSpace) (ht : ∀ r : Rune, r.isSpace → ¬r.encode <:+ t) : 
    trimRightSpace.go n (t ++ encodeAll ws) = t := by
  induction ws using List.reverseRecOn generalizing n
  case nil =>
    rw [encodeAll_nil, List.append_nil]
    cases n
    case zero => rfl
    case succ =>
      rw [trimRightSpace.go]
      split <;> try rfl
      case _ r hd => exact if_neg fun hr => ht r hr (isSuffix_of_decodeLastRune? hd)
  case append_singleton ws r hi =>
    obtain ⟨n, rfl⟩ : ∃ m, n = m + 1 := ⟨n - 1, by simp at hn; omega⟩
    have he : t ++ encodeAll (ws ++ [r]) = t ++ encodeAll ws ++ r.encode := by 
      simp [encodeAll_append]
    have hd : decodeLastRune? (t ++ encodeAll ws ++ r.encode) = some r := 
      decodeLastRune?_eq_some_iff.mpr <| List.suffix_append ..
    rw [he, trimRightSpace.go, hd]
    dsimp only
    rw [if_pos <| hw r (by simp), rdrop_append_encode]
    exact hi (by simpa using hn) fun r hr => hw r (by simp [hr])

-- The same at the start.
theorem trimLeftSpace.go_encodeAll_append {t : Bytes} {ws : List Rune} {n : Nat} (hn : ws.length ≤ n) 
    (hw : ∀ r ∈ ws, r.isSpace) (ht : ∀ r : Rune, r.isSpace → ¬r.encode <+: t) : 
    trimLeftSpace.go n (encodeAll ws ++ t) = t := by
  induction ws generalizing n
  case nil =>
    rw [encodeAll_nil, List.nil_append]
    cases n
    case zero => rfl
    case succ =>
      rw [trimLeftSpace.go]
      split <;> try rfl
      case _ r hd => exact if_neg fun hr => ht r hr (encode_isPrefix hd)
  case cons r ws hi =>
    obtain ⟨n, rfl⟩ : ∃ m, n = m + 1 := ⟨n - 1, by simp at hn; omega⟩
    have hd : decodeRune? (r.encode ++ (encodeAll ws ++ t)) = some r := 
      decodeRune?_eq <| List.prefix_append ..
    have hr : (r.encode ++ (encodeAll ws ++ t)).drop r.utf8Size = encodeAll ws ++ t := by
      rw [← Rune.length_encode, List.drop_left]
    rw [encodeAll_cons, List.append_assoc, trimLeftSpace.go, hd]
    dsimp only
    rw [if_pos <| hw r (by simp), hr]
    exact hi (by simpa using hn) fun r hr => hw r (by simp [hr])

theorem length_le_length_encodeAll {rs : List Rune} : rs.length ≤ (encodeAll rs).length := by
  induction rs
  case nil          => simp
  case cons r rs hi =>
    have hr := r.length_encode_pos
    rw [encodeAll_cons, List.length_cons, List.length_append]
    omega

theorem trimRightSpace_append_encodeAll {t : Bytes} {ws : List Rune} (hw : ∀ r ∈ ws, r.isSpace) 
    (ht : ∀ r : Rune, r.isSpace → ¬r.encode <:+ t) : trimRightSpace (t ++ encodeAll ws) = t := by
  refine trimRightSpace.go_append_encodeAll ?_ hw ht
  rw [List.length_append]
  exact length_le_length_encodeAll.trans (Nat.le_add_left ..)

theorem trimLeftSpace_encodeAll_append {t : Bytes} {ws : List Rune} (hw : ∀ r ∈ ws, r.isSpace) 
    (ht : ∀ r : Rune, r.isSpace → ¬r.encode <+: t) : trimLeftSpace (encodeAll ws ++ t) = t := by
  refine trimLeftSpace.go_encodeAll_append ?_ hw ht
  rw [List.length_append]
  exact length_le_length_encodeAll.trans (Nat.le_add_right ..)

theorem trimRightSpace.exists_go {s : Bytes} {n : Nat} (hn : s.length ≤ n) : 
    ∃ ws, (∀ r ∈ ws, r.isSpace) ∧ s = trimRightSpace.go n s ++ encodeAll ws ∧ 
      ∀ r : Rune, r.isSpace → ¬r.encode <:+ trimRightSpace.go n s := by
  induction n generalizing s
  case zero =>
    have hs := List.length_eq_zero_iff.mp <| Nat.le_zero.mp hn
    exact ⟨[], by simp, by simp [hs, go], fun r _ h => r.encode_ne_nil <| by simp_all [go]⟩
  case succ n hi =>
    cases hd : s.decodeLastRune?
    case none   =>
      have hg : go (n + 1) s = s := by simp [go, hd]
      refine ⟨[], by simp, by simp [hg], fun r _ h => ?_⟩
      rw [hg, ← decodeLastRune?_eq_some_iff, hd] at h
      contradiction
    case some r =>
      by_cases hr : r.isSpace
      case neg =>
        have hg : go (n + 1) s = s := by simp [go, hd, hr]
        refine ⟨[], by simp, by simp [hg], fun r' hr' h => ?_⟩
        rw [hg, ← decodeLastRune?_eq_some_iff, hd] at h
        exact hr <| Option.some.inj h ▸ hr'
      case pos =>
        obtain ⟨t, rfl⟩ := isSuffix_of_decodeLastRune? hd
        have hg : go (n + 1) (t ++ r.encode) = go n t := by
          simp [go, hd, hr, rdrop_append_encode]
        have ht : t.length ≤ n := by
          have := r.length_encode_pos
          rw [List.length_append] at hn
          omega
        obtain ⟨ws, hw, he, hl⟩ := hi ht
        rw [hg]
        refine ⟨ws ++ [r], ?_, ?_, hl⟩
        · simpa [or_imp, forall_and, hr] using hw
        · rw [encodeAll_append, ← List.append_assoc, ← he]
          simp

theorem trimLeftSpace.exists_go {s : Bytes} {n : Nat} (hn : s.length ≤ n) : 
    ∃ ws, (∀ r ∈ ws, r.isSpace) ∧ s = encodeAll ws ++ trimLeftSpace.go n s ∧ 
      ∀ r : Rune, r.isSpace → ¬r.encode <+: trimLeftSpace.go n s := by
  induction n generalizing s
  case zero =>
    have hs := List.length_eq_zero_iff.mp <| Nat.le_zero.mp hn
    exact ⟨[], by simp, by simp [go], fun r _ h => r.encode_ne_nil <| by simp_all [go]⟩
  case succ n hi =>
    cases hd : s.decodeRune?
    case none   =>
      have hg : go (n + 1) s = s := by simp [go, hd]
      refine ⟨[], by simp, by simp [hg], fun r _ h => ?_⟩
      rw [decodeRune?_eq (hg ▸ h)] at hd
      contradiction
    case some r =>
      by_cases hr : r.isSpace
      case neg =>
        have hg : go (n + 1) s = s := by simp [go, hd, hr]
        refine ⟨[], by simp, by simp [hg], fun r' hr' h => ?_⟩
        rw [decodeRune?_eq (hg ▸ h)] at hd
        exact hr <| Option.some.inj hd ▸ hr'
      case pos =>
        obtain ⟨t, rfl⟩ := encode_isPrefix hd
        have hg : go (n + 1) (r.encode ++ t) = go n t := by
          simp [go, hd, hr, ← String.length_utf8EncodeChar]
        have ht : t.length ≤ n := by
          have := r.length_encode_pos
          rw [List.length_append] at hn
          omega
        obtain ⟨ws, hw, he, hl⟩ := hi ht
        rw [hg]
        refine ⟨r :: ws, by simpa [hr] using hw, ?_, hl⟩
        rw [encodeAll_cons, List.append_assoc, ← he]

-- What is removed are spaces, and none are left.
theorem exists_trimRightSpace (s : Bytes) : 
    ∃ ws, (∀ r ∈ ws, r.isSpace) ∧ s = s.trimRightSpace ++ encodeAll ws ∧ 
      ∀ r : Rune, r.isSpace → ¬r.encode <:+ s.trimRightSpace :=
  trimRightSpace.exists_go le_rfl

theorem exists_trimLeftSpace (s : Bytes) : 
    ∃ ws, (∀ r ∈ ws, r.isSpace) ∧ s = encodeAll ws ++ s.trimLeftSpace ∧ 
      ∀ r : Rune, r.isSpace → ¬r.encode <+: s.trimLeftSpace :=
  trimLeftSpace.exists_go le_rfl

theorem exists_trimSpace (s : Bytes) : 
    ∃ ws us, (∀ r ∈ ws, r.isSpace) ∧ s = encodeAll ws ++ (s.trimSpace ++ encodeAll us) ∧ 
      (s.trimLeftSpace = s ↔ ws = []) := by
  obtain ⟨ws, hw, hs, _⟩ := exists_trimLeftSpace s
  obtain ⟨us, _, hr, _⟩ := exists_trimRightSpace s.trimLeftSpace
  refine ⟨ws, us, hw, by rwa [trimSpace, ← hr], ?_⟩
  constructor
  case mp  => 
    intro h
    rw [h] at hs
    cases ws
    case nil      => rfl
    case cons r _ => exact absurd (List.append_eq_nil_iff.mp <| List.self_eq_append_left.mp hs).left r.encode_ne_nil
  case mpr => 
    intro h
    rw [h, encodeAll_nil, List.nil_append] at hs
    exact hs.symm

theorem trimSpace_trimSpace {s : Bytes} : s.trimSpace.trimSpace = s.trimSpace := by
  obtain ⟨_, _, _, hl⟩ := exists_trimLeftSpace s
  obtain ⟨_, _, hs, hr⟩ := exists_trimRightSpace s.trimLeftSpace
  have hp : s.trimSpace <+: s.trimLeftSpace := ⟨_, hs.symm⟩
  rw [trimSpace, trimLeftSpace_eq_self fun r h he => hl r h <| he.trans hp]
  simpa using @trimRightSpace_append_encodeAll s.trimSpace [] (by simp) hr

-- What the kernel prints with a newline is read without it.
theorem trimSpace_newline {s : Bytes} : (s ++ [10]).trimSpace = s.trimSpace := by
  have hn : Rune.isSpace '\n' := by decide
  have hc : [10] = encodeAll ['\n'] := rfl
  have hsp {ws : List Rune} (hw : ∀ r ∈ ws, r.isSpace) : ∀ r ∈ ws ++ ['\n'], r.isSpace := by
    simpa [or_imp, forall_and, hn] using hw
  obtain ⟨ws, hw, hs, hl⟩ := exists_trimLeftSpace s
  obtain ⟨us, hu, hr, ht⟩ := exists_trimRightSpace s.trimLeftSpace
  have hright : trimRightSpace (s.trimLeftSpace ++ [10]) = s.trimLeftSpace.trimRightSpace := by
    conv_lhs => rw [hr, hc, List.append_assoc, ← encodeAll_append]
    exact trimRightSpace_append_encodeAll (hsp hu) ht
  rw [trimSpace, trimSpace]
  by_cases hnil : s.trimLeftSpace = []
  case pos =>
    have hleft : trimLeftSpace (s ++ [10]) = [] := by
      conv_lhs => rw [hs, hnil, List.append_nil, hc, ← encodeAll_append, ← List.append_nil (encodeAll _)]
      exact trimLeftSpace_encodeAll_append (hsp hw) (hnil ▸ hl)
    rw [hleft, hnil]
  case neg =>
    have hleft : trimLeftSpace (s ++ [10]) = s.trimLeftSpace ++ [10] := by
      conv_lhs => rw [hs, List.append_assoc]
      refine trimLeftSpace_encodeAll_append hw fun r hr hp => ?_
      cases List.prefix_concat_iff.mp hp
      case inr hp => exact hl r hr hp
      case inl he =>
        -- A newline is not the continuation of an encoding that starts earlier.
        cases hb : s.trimLeftSpace
        case nil      => contradiction
        case cons b t =>
          rw [hb] at he
          exact mem_tail_encode_not_first he |>.right 10 (by simp) (by decide)
    rw [hleft, hright]

theorem trimByte_eq_self {s : Bytes} {b : UInt8} (h : b ∉ s) : s.trimByte b = s := by
  have hd : s.dropWhile (· == b) = s := by
    cases s
    case nil       => rfl
    case cons c s  =>
      have hc : c ≠ b := fun hc => h (hc ▸ List.mem_cons_self)
      exact List.dropWhile_cons_of_neg (by simpa using hc)
  rw [trimByte, hd, List.rdropWhile_eq_self_iff]
  intro hl hb
  simp only [beq_iff_eq] at hb
  exact h (hb ▸ List.getLast_mem hl)

end Bytes
end Go
