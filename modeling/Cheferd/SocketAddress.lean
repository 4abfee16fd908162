import Cheferd.Strings
import Cheferd.Library.CString

namespace Cheferd.SocketAddress

open Library CString

def stageNameMaxSize : ℕ := 200

def stageMaxHandshakeAddressSize : ℕ := 100

def sunPathSize : ℕ := 108

structure StageSimplifiedHandshakeRaw where
  stageName : List UInt8
  pid : ℤ
  ppid : ℤ

structure StageResponseHandshake where
  name : List UInt8
  env : List UInt8
  pid : ℤ
  ppid : ℤ

/-- The environment is not the one that the stage sends. -/
def stageResponseHandshake (stage : StageSimplifiedHandshakeRaw) : StageResponseHandshake where
  name := read stage.stageName
  env := octets (toString stage.pid)
  pid := stage.pid
  ppid := stage.ppid

def fillSocketInfo (handshake : StageResponseHandshake) : Bool × List UInt8 :=
  (handshake.name ≠ [] ∧ handshake.env ≠ [] ∧ handshake.pid > 0 ∧ handshake.ppid > 0,
    octets "/tmp/" ++ (if handshake.name = [] then [] else handshake.name ++ octets "_") ++
      (if handshake.env = [] then [] else handshake.env ++ octets "_") ++
      (if handshake.pid > 0 then octets (toString handshake.pid) ++ octets "_" else []) ++
      (if handshake.ppid > 0 then octets (toString handshake.ppid) else []) ++ octets ".socket")

def stageHandshakeInfo (socketInfo : List UInt8) : List UInt8 :=
  octets (toString (12 : ℤ)) ++ octets "|" ++ socketInfo ++ octets "|" ++ octets (toString (-1 : ℤ))
    ++ octets "|"

structure StageHandshakeRaw where
  address : List UInt8
  port : ℤ

def stageHandshakeAddress (rule : List UInt8) : Option StageHandshakeRaw := do
  let tokens := Tokens.parse 124 rule
  let address ← strcpy (List.replicate stageMaxHandshakeAddressSize 0) (read (← tokens[1]?))
  let port ← Decimal.signed 32 (text (← tokens[2]?))
  return { address, port }

def prepareUnixConnection (sunPath socketName : List UInt8) : List UInt8 :=
  strncpy sunPath socketName (sunPathSize - 1)

/-- What a `sun_path` holds before the first copy is not determined. -/
abbrev SunPath := { bytes : List UInt8 // bytes.length = sunPathSize }

structure StageHandshake extends StageSimplifiedHandshakeRaw where
  size : stageName.length = stageNameMaxSize
  terminated : 0 ∈ stageName
  nonempty : read stageName ≠ []
  plain : 124 ∉ read stageName
  pid_pos : 0 < pid
  pid_range : Decimal.InRange 32 pid
  ppid_pos : 0 < ppid
  ppid_range : Decimal.InRange 32 ppid

namespace StageHandshake

def name (h : StageHandshake) : List UInt8 := read h.stageName

def socketInfo (h : StageHandshake) : List UInt8 :=
  (fillSocketInfo (stageResponseHandshake h.toStageSimplifiedHandshakeRaw)).2

def told (h : StageHandshake) : Option (List UInt8) :=
  (stageHandshakeAddress (stageHandshakeInfo h.socketInfo)).map fun object => read object.address

/-- The path the session asks to bind to. A second session that asks for the path of a bound one fails. -/
def listens (h : StageHandshake) (sunPath : SunPath) : List UInt8 :=
  read (prepareUnixConnection sunPath (read h.socketInfo))

structure Agreed (h : StageHandshake) : Prop where
  fits_address : h.socketInfo.length + 1 ≤ stageMaxHandshakeAddressSize
  fits_sun_path : h.socketInfo.length + 1 ≤ sunPathSize
  told_listens (sunPath : SunPath) : h.told = some (h.listens sunPath)
  unshared (other : StageHandshake) (hother : other.name ≠ h.name ∨ other.pid ≠ h.pid)
    (sunPath sunPath' : SunPath) : other.listens sunPath' ≠ h.listens sunPath

end StageHandshake

theorem toNat_lt_of_toString (v : ℤ) : ∀ c ∈ (toString v).toList, c.toNat < 256 := by
  intro c hc
  rcases Decimal.isDigit_or_minus v c hc with hdigit | rfl
  · exact Nat.lt_of_le_of_lt (Char.isDigit_iff_toNat.mp hdigit).2 (by decide)
  · decide

theorem notMem_octets_toString (v : ℤ) (c : Char) (hc : c.toNat < 256) (hd : c.isDigit = false) (hm : c ≠ '-') :
    UInt8.ofNat c.toNat ∉ octets (toString v) :=
  fun h => Decimal.notMem_toString v c hd hm (mem_octets (toNat_lt_of_toString v) hc h)

theorem nul_notMem_toString (v : ℤ) : 0 ∉ octets (toString v) :=
  notMem_octets_toString v '\x00' (by decide) (by decide) (by decide)

theorem bar_notMem_toString (v : ℤ) : 124 ∉ octets (toString v) :=
  notMem_octets_toString v '|' (by decide) (by decide) (by decide)

theorem underscore_notMem_toString (v : ℤ) : 95 ∉ octets (toString v) :=
  notMem_octets_toString v '_' (by decide) (by decide) (by decide)

theorem octets_toString_ne_nil (v : ℤ) : octets (toString v) ≠ [] := by
  rw [octets, ne_eq, List.map_eq_nil_iff]
  exact Decimal.toString_ne_nil v

theorem octets_toString_inj {v w : ℤ} (h : octets (toString v) = octets (toString w)) : v = w := by
  have htext := congrArg text h
  rw [text_octets (toNat_lt_of_toString v), text_octets (toNat_lt_of_toString w)] at htext
  have hinteger := Decimal.integer_toString v
  rw [htext, Decimal.integer_toString] at hinteger
  exact (Option.some.inj hinteger).symm

namespace StageHandshake

variable (h : StageHandshake)

theorem socketInfo_eq : h.socketInfo =
    octets "/tmp/" ++ (((h.name ++ 95 :: octets (toString h.pid)) ++ 95 :: octets (toString h.pid)) ++
      95 :: octets (toString h.ppid)) ++ octets ".socket" := by
  have hunderscore : octets "_" = [95] := by decide
  simp only [socketInfo, fillSocketInfo, stageResponseHandshake, if_neg h.nonempty,
    if_neg (octets_toString_ne_nil h.pid), gt_iff_lt, if_pos h.pid_pos, if_pos h.ppid_pos, hunderscore, name]
  simp only [List.append_assoc, List.cons_append, List.nil_append]

theorem length_socketInfo : h.socketInfo.length =
    h.name.length + 2 * (toString h.pid).length + (toString h.ppid).length + 15 := by
  rw [socketInfo_eq]
  simp only [List.length_append, List.length_cons, length_octets]
  have hroot : "/tmp/".length = 5 := rfl
  have hsuffix : ".socket".length = 7 := rfl
  omega

theorem socketInfo_ne_nil : h.socketInfo ≠ [] := by
  have hlength := h.length_socketInfo
  intro hnil
  rw [hnil, List.length_nil] at hlength
  omega

variable {h} in
theorem notMem_socketInfo {c : UInt8} (hfixed : c ∉ octets "/tmp/" ++ 95 :: octets ".socket")
    (hname : c ∉ h.name)
    (hdigits : ∀ v : ℤ, c ∉ octets (toString v)) : c ∉ h.socketInfo := by
  rw [socketInfo_eq]
  simp only [List.mem_append, List.mem_cons, not_or] at hfixed ⊢
  obtain ⟨hroot, hunderscore, hsuffix⟩ := hfixed
  exact ⟨⟨hroot, ⟨⟨hname, hunderscore, hdigits h.pid⟩, hunderscore, hdigits h.pid⟩, hunderscore,
    hdigits h.ppid⟩, hsuffix⟩

theorem nul_notMem_socketInfo : 0 ∉ h.socketInfo :=
  notMem_socketInfo (by decide) (notMem_read h.stageName) nul_notMem_toString

theorem bar_notMem_socketInfo : 124 ∉ h.socketInfo :=
  notMem_socketInfo (by decide) h.plain bar_notMem_toString

theorem socketInfo_inj {h h' : StageHandshake} (heq : h.socketInfo = h'.socketInfo) :
    h.name = h'.name ∧ h.pid = h'.pid ∧ h.ppid = h'.ppid := by
  rw [socketInfo_eq, socketInfo_eq] at heq
  have hfields := List.append_cancel_left (List.append_cancel_right heq)
  obtain ⟨hfields, hppid⟩ := Tokens.append_cons_inj_right (underscore_notMem_toString _)
    (underscore_notMem_toString _) hfields
  obtain ⟨hfields, hpid⟩ := Tokens.append_cons_inj_right (underscore_notMem_toString _)
    (underscore_notMem_toString _) hfields
  obtain ⟨hname, -⟩ := Tokens.append_cons_inj_right (underscore_notMem_toString _)
    (underscore_notMem_toString _) hfields
  exact ⟨hname, octets_toString_inj hpid, octets_toString_inj hppid⟩

theorem parse_stageHandshakeInfo : Tokens.parse 124 (stageHandshakeInfo h.socketInfo) =
    [octets (toString (12 : ℤ)), h.socketInfo, octets (toString (-1 : ℤ))] := by
  have hbar : octets "|" = [124] := by decide
  have hrule : stageHandshakeInfo h.socketInfo = octets (toString (12 : ℤ)) ++ 124 ::
      (h.socketInfo ++ 124 :: (octets (toString (-1 : ℤ)) ++ 124 :: [])) := by
    simp only [stageHandshakeInfo, hbar, List.append_assoc, List.cons_append, List.nil_append]
  rw [Tokens.parse_eq, hrule, Tokens.tokens_head _ _ _ (bar_notMem_toString 12) (octets_toString_ne_nil 12),
    Tokens.tokens_head _ _ _ h.bar_notMem_socketInfo h.socketInfo_ne_nil,
    Tokens.tokens_head _ _ _ (bar_notMem_toString (-1)) (octets_toString_ne_nil (-1)), Tokens.tokens_nil]

theorem stageHandshakeAddress_eq : stageHandshakeAddress (stageHandshakeInfo h.socketInfo) =
    (strcpy (List.replicate stageMaxHandshakeAddressSize 0) h.socketInfo).map
      fun address => { address, port := -1 } := by
  have hport : Decimal.signed 32 (text (octets (toString (-1 : ℤ)))) = some (-1) := by
    rw [text_octets (toNat_lt_of_toString (-1)), Decimal.signed_toString 32 (-1) (by decide)]
  unfold stageHandshakeAddress
  rw [parse_stageHandshakeInfo]
  simp only [List.getElem?_cons_succ, List.getElem?_cons_zero, Option.pure_def, Option.bind_eq_bind,
    Option.bind_some, hport, read_eq_self h.nul_notMem_socketInfo]
  cases strcpy (List.replicate stageMaxHandshakeAddressSize 0) h.socketInfo <;> rfl

theorem told_eq : h.told =
    if h.socketInfo.length + 1 ≤ stageMaxHandshakeAddressSize then some h.socketInfo else none := by
  rw [told, stageHandshakeAddress_eq, Option.map_map, strcpy, List.length_replicate]
  split
  · rw [Option.map_some, Function.comp_apply, read_append_nul h.nul_notMem_socketInfo]
  · rfl

theorem listens_eq (sunPath : SunPath) (hfits : h.socketInfo.length + 1 < sunPathSize) :
    h.listens sunPath = h.socketInfo := by
  rw [listens, prepareUnixConnection, read_eq_self h.nul_notMem_socketInfo]
  exact read_strncpy h.nul_notMem_socketInfo (by omega)

theorem listens_cut (sunPath : SunPath) (hcut : sunPathSize ≤ h.socketInfo.length + 1) :
    h.listens sunPath = h.socketInfo.take (sunPathSize - 1) ++ read (sunPath.val.drop (sunPathSize - 1)) := by
  rw [listens, prepareUnixConnection, read_eq_self h.nul_notMem_socketInfo]
  exact read_strncpy_of_le h.nul_notMem_socketInfo (by omega)

theorem listens_ne {h other : StageHandshake} (hother : other.name ≠ h.name ∨ other.pid ≠ h.pid)
    (hfits : h.socketInfo.length + 1 < sunPathSize) (sunPath sunPath' : SunPath) :
    other.listens sunPath' ≠ h.listens sunPath := by
  intro heq
  rw [h.listens_eq sunPath hfits] at heq
  by_cases hcut : other.socketInfo.length + 1 < sunPathSize
  · rw [other.listens_eq sunPath' hcut] at heq
    obtain ⟨hname, hpid, -⟩ := socketInfo_inj heq
    rcases hother with hne | hne
    · exact hne hname
    · exact hne hpid
  · have hlength := congrArg List.length heq
    rw [other.listens_cut sunPath' (by omega), List.length_append, List.length_take] at hlength
    omega

end StageHandshake

open StageHandshake

def named (name : List UInt8) (hsize : name.length < stageNameMaxSize) (hnul : 0 ∉ name) (hname : name ≠ [])
    (hbar : 124 ∉ name) : StageHandshake where
  stageName := name ++ 0 :: List.replicate (stageNameMaxSize - 1 - name.length) 0
  pid := 4242
  ppid := 1
  size := by
    rw [List.length_append, List.length_cons, List.length_replicate]
    omega
  terminated := List.mem_append_right _ List.mem_cons_self
  nonempty := by rwa [read_append_nul hnul]
  plain := by rwa [read_append_nul hnul]
  pid_pos := by decide
  pid_range := by decide
  ppid_pos := by decide
  ppid_range := by decide

def longName (last : UInt8) : List UInt8 := List.replicate 150 97 ++ [last]

def longNamed (last : UInt8) (hnul : last ≠ 0) (hbar : last ≠ 124) : StageHandshake :=
  named (longName last) (by simp [longName, stageNameMaxSize]) (by simp [longName, hnul.symm])
    (by simp [longName]) (by simp [longName, hbar.symm])

section Long

variable (last : UInt8) (hnul : last ≠ 0) (hbar : last ≠ 124)

theorem longNamed_name : (longNamed last hnul hbar).name = longName last :=
  read_append_nul (by simp [longName, hnul.symm]) _

theorem longNamed_told : (longNamed last hnul hbar).told = none := by
  have hlength := (longNamed last hnul hbar).length_socketInfo
  rw [longNamed_name, longName, List.length_append, List.length_replicate] at hlength
  rw [told_eq, if_neg]
  unfold stageMaxHandshakeAddressSize
  omega

theorem longNamed_listens (sunPath : SunPath) : (longNamed last hnul hbar).listens sunPath =
    octets "/tmp/" ++ List.replicate 102 97 ++ read (sunPath.val.drop (sunPathSize - 1)) := by
  have hkept : octets "/tmp/" ++ List.replicate 102 97 <+: (longNamed last hnul hbar).socketInfo := by
    have hreplicate : List.replicate 150 (97 : UInt8) = List.replicate 102 97 ++ List.replicate 48 97 := by
      rw [List.replicate_append_replicate]
    rw [socketInfo_eq, longNamed_name, longName, hreplicate]
    simp only [List.append_assoc, List.prefix_append_right_inj, List.prefix_append]
  have hlength : (octets "/tmp/" ++ List.replicate 102 97).length = sunPathSize - 1 := by
    rw [List.length_append, length_octets, List.length_replicate]
    rfl
  have hcut : sunPathSize ≤ (longNamed last hnul hbar).socketInfo.length + 1 := by
    have hle := hkept.length_le
    omega
  rw [listens_cut _ sunPath hcut, ← hlength, ← List.prefix_iff_eq_take.mp hkept]

end Long

end Cheferd.SocketAddress
