import Maknae.Config.Providers
import Std.Data.String.ToNat

/-!
# Endpoints

An endpoint is a URL that a library will connect to. The check reads it by hand and cuts the
authority at `/` only, while the generic syntax of URLs ends it at `?` and `#` too. That the two
cuts agree is because no character that could end an authority passes for a part of one: a host has
letters, digits, dots and hyphens, a port has digits, and what a literal of an address is made of is
known (`IsIpv6.isPlain`). So the host that was judged is the host of the URL.

The parsers of addresses are taken to be right about what they accept (`AddrParser.Sound`).
-/

namespace Maknae.Config

open List Option Text

/-! ### The generic syntax -/

/-- The scheme and the authority of a URL: the authority ends at the first `/`, `?` or `#`. -/
def genericSplit (url : String) : Option (String × String) :=
  let scheme := url.toList.takeWhile (!":/?#".toList.contains ·)
  match url.toList.drop scheme.length with
  | ':' :: '/' :: '/' :: rest =>
    some (String.ofList scheme, String.ofList (rest.takeWhile (!"/?#".toList.contains ·)))
  | _ => none

/-! ### Literals of addresses -/

/-- A decimal number up to 255, without a leading zero. -/
def octet (s : String) : Option ℕ :=
  let n := Nat.ofDigitChars 10 s.toList 0
  if s ≠ "" ∧ s.toList.all Char.isDigit ∧ (s = "0" ∨ startsWithChar '0' s = false) ∧ n ≤ 255 then
    some n
  else none

/-- Four octets with dots between them. -/
def IsIpv4 (s : String) (octets : List ℕ) : Prop :=
  (split '.' s).map octet = octets.map some ∧ octets.length = 4

instance (s : String) (octets : List ℕ) : Decidable (IsIpv4 s octets) :=
  inferInstanceAs (Decidable (_ ∧ _))

def isHexDigit (c : Char) : Bool := c.isDigit || "abcdefABCDEF".toList.contains c

/-- Up to four hexadecimal digits. -/
def hextet (s : String) : Option ℕ :=
  if s ≠ "" ∧ s.toList.length ≤ 4 ∧ s.toList.all isHexDigit then
    some (s.toList.foldl (fun n c ↦ 16 * n + "0123456789abcdef".toList.idxOf c.toLower) 0)
  else none

/-- Groups of sixteen bits. The last two may be written as octets. -/
def IsGroups (pieces : List String) (groups : List ℕ) : Prop :=
  pieces.map hextet = groups.map some ∨
    ∃ front last first a b c d, pieces = front ++ [last] ∧ front.map hextet = first.map some ∧
      IsIpv4 last [a, b, c, d] ∧ groups = first ++ [256 * a + b, 256 * c + d]

/-- The pieces of a side of `::`, which may be empty. -/
def sidePieces (s : String) : List String := if s = "" then [] else split ':' s

/-- The text is a literal of the address: eight groups, or fewer with `::` for groups of zeros. -/
def IsIpv6 (s : String) (addr : List ℕ) : Prop :=
  IsGroups (split ':' s) addr ∧ addr.length = 8 ∨
    ∃ l r a b, s = l ++ "::" ++ r ∧ (sidePieces l).map hextet = a.map some ∧
      IsGroups (sidePieces r) b ∧ a.length + b.length < 8 ∧
      addr = a ++ replicate (8 - (a.length + b.length)) 0 ++ b

def ipv6Loopback : List ℕ := [0, 0, 0, 0, 0, 0, 0, 1]

/-- What the parsers of addresses accept is a literal, and they know the loopback ones. -/
structure AddrParser.Sound (addrs : AddrParser) : Prop where
  v4 : ∀ s loopback, addrs.v4 s = some loopback →
    ∃ octets, IsIpv4 s octets ∧ loopback = (octets.head? == some 127)
  v6 : ∀ s loopback, addrs.v6 s = some loopback →
    ∃ addr, IsIpv6 s addr ∧ loopback = (addr == ipv6Loopback)

/-! ### What an endpoint may be -/

/-- A character of a host name. -/
def nameChar (c : Char) : Bool := isAsciiAlphanumericChar c || c == '.' || c == '-'

def IsHost (host : String) : Prop :=
  host ≠ "" ∧ (∀ c ∈ host.toList, nameChar c) ∨ (∃ octets, IsIpv4 host octets) ∨
    ∃ h addr, host = "[" ++ h ++ "]" ∧ IsIpv6 h addr

def IsLoopbackHost (host : String) : Prop :=
  host = "localhost" ∨ (∃ octets, IsIpv4 host octets ∧ octets.head? = some 127) ∨
    ∃ h, host = "[" ++ h ++ "]" ∧ IsIpv6 h ipv6Loopback

/-- A decimal number of sixteen bits, not zero and without a leading zero. -/
def IsPort (p : String) : Prop :=
  (∀ c ∈ p.toList, c.isDigit) ∧ startsWithChar '0' p = false ∧
    1 ≤ Nat.ofDigitChars 10 p.toList 0 ∧ Nat.ofDigitChars 10 p.toList 0 ≤ 65535

/-! ### Characters -/

/-- The characters of hosts, ports and literals, none of which ends an authority. -/
def plainChar (c : Char) : Bool := nameChar c || ":[]".toList.contains c

/-- A text of plain characters. -/
abbrev IsPlain (s : String) : Prop := ∀ c ∈ s.toList, plainChar c

theorem IsPlain.append {a b} (ha : IsPlain a) (hb : IsPlain b) : IsPlain (a ++ b) := by
  intro c hc
  rw [String.toList_append, mem_append] at hc
  exact hc.elim (ha c) (hb c)

/-- A text is plain when it was cut at a plain character and its pieces are. -/
theorem isPlain_of_split {sep} (hsep : plainChar sep) {s}
    (h : ∀ piece ∈ split sep s, IsPlain piece) : IsPlain s := by
  intro c hc
  by_cases heq : c = sep
  · rwa [heq]
  · obtain ⟨piece, hpiece, hc⟩ := exists_mem_split_of_mem hc heq
    exact h piece hpiece c hc

variable {pieces : List String} {c : Char}

/-- What every piece is read by is read of each. -/
theorem exists_of_map_eq {f : String → Option ℕ} {ns : List ℕ} (h : pieces.map f = ns.map some) :
    ∀ s ∈ pieces, ∃ n, f s = some n := by
  intro s hs
  obtain ⟨n, -, hn⟩ := mem_map.mp (h ▸ mem_map_of_mem hs)
  exact ⟨n, hn.symm⟩

theorem isDigit_iff : c.isDigit ↔ 48 ≤ c.toNat ∧ c.toNat ≤ 57 := by
  simp only [Char.isDigit, Bool.and_eq_true, decide_eq_true_eq]
  rfl

theorem plainChar_of_isDigit (h : c.isDigit) : plainChar c := by
  simp [plainChar, nameChar, isAsciiAlphanumericChar, isDigit_iff.mp h]

theorem isPlain_of_hextet {s n} (h : hextet s = some n) : IsPlain s := by
  unfold hextet at h
  split_ifs at h with hs
  intro c hc
  have hletters : ∀ c ∈ "abcdefABCDEF".toList, plainChar c := all_eq_true.mp (by decide)
  have hhex := all_eq_true.mp hs.2.2 c hc
  rw [isHexDigit, Bool.or_eq_true] at hhex
  exact hhex.elim plainChar_of_isDigit fun h ↦ hletters c (by simpa using h)

theorem IsIpv4.isPlain {s : String} {octets : List ℕ} (h : IsIpv4 s octets) : IsPlain s := by
  refine @isPlain_of_split '.' (by decide) s fun piece hpiece c hc ↦ ?_
  obtain ⟨n, hn⟩ := exists_of_map_eq h.1 piece hpiece
  unfold octet at hn
  dsimp only at hn
  split_ifs at hn with hoctet
  exact plainChar_of_isDigit (all_eq_true.mp hoctet.2.1 c hc)

theorem IsGroups.isPlain {groups : List ℕ} (h : IsGroups pieces groups) :
    ∀ s ∈ pieces, IsPlain s := by
  have hhex : ∀ {pieces : List String} {groups : List ℕ}, pieces.map hextet = groups.map some →
      ∀ s ∈ pieces, IsPlain s := fun hmap s hs ↦
    isPlain_of_hextet (exists_of_map_eq hmap s hs).choose_spec
  rcases h with hmap | ⟨front, last, first, a, b, c, d, rfl, hmap, hlast, -⟩
  · exact hhex hmap
  · exact forall_mem_concat.mpr ⟨hhex hmap, hlast.isPlain⟩

/-- **What a literal of an address is made of.** -/
theorem IsIpv6.isPlain {s addr} (h : IsIpv6 s addr) : IsPlain s := by
  have hside : ∀ s : String, (∀ piece ∈ sidePieces s, IsPlain piece) → IsPlain s := by
    intro s hs
    by_cases hne : s = ""
    · rw [hne]
      exact nofun
    · exact @isPlain_of_split ':' (by decide) s (by rwa [sidePieces, if_neg hne] at hs)
  rcases h with ⟨hgroups, -⟩ | ⟨l, r, a, b, rfl, hl, hr, -⟩
  · exact @isPlain_of_split ':' (by decide) s hgroups.isPlain
  · exact ((hside l (IsGroups.isPlain (.inl hl))).append (all_eq_true.mp (by decide))).append
      (hside r hr.isPlain)

/-! ### Ports -/

theorem le_ofDigitChars (l : List Char) (n : ℕ) : n ≤ Nat.ofDigitChars 10 l n := by
  induction l generalizing n with
  | nil => exact le_rfl
  | cons c l ih =>
    exact (by omega : n ≤ 10 * n + (c.toNat - '0'.toNat)).trans (ih _)

theorem isPort_of_portIsAcceptable {p : String} (h : portIsAcceptable p = true) : IsPort p := by
  simp only [portIsAcceptable, Bool.and_eq_true, Bool.not_eq_true', Option.any_eq_true,
    decide_eq_true_eq] at h
  obtain ⟨⟨⟨hne, hdigits⟩, hzero⟩, n, hn, hlt⟩ := h
  have hbytes : ∀ b ∈ utf8Bytes p, 48 ≤ b.toNat ∧ b.toNat ≤ 57 := fun b hb ↦ by
    have := all_eq_true.mp hdigits b hb
    simpa [isAsciiDigit, UInt8.le_iff_toNat_le] using this
  have hchars : ∀ c ∈ p.toList, c.isDigit := by
    intro c hc
    obtain ⟨b, hb, heq⟩ := exists_byte_of_mem (fun b hb ↦ (hbytes b hb).2.trans_lt (by decide)) hc
    exact isDigit_iff.mpr (heq ▸ hbytes b hb)
  have hvalue : n = Nat.ofDigitChars 10 p.toList 0 := by
    have hplain : p.toList.filter (· != '_') = p.toList :=
      filter_eq_self.mpr fun c hc ↦ by
        rw [bne_iff_ne]
        rintro rfl
        exact absurd (hchars _ hc) (by decide)
    have hnat := String.toNat?_eq_some_ofDigitChars (String.isNat_of_toNat?_eq_some hn)
    rw [hn, hplain] at hnat
    exact some.inj hnat
  refine ⟨hchars, hzero, ?_, by omega⟩
  cases hp : p.toList with
  | nil => exact absurd (String.toList_eq_nil_iff.mp hp) (by simpa using hne)
  | cons c l =>
    have hdigit := isDigit_iff.mp (hchars c (hp ▸ mem_cons_self))
    have hc : c.toNat ≠ 48 := fun h ↦ by
      obtain rfl : c = '0' := Char.toNat_inj.mp h
      simp [startsWithChar, hp] at hzero
    exact le_trans (by show 1 ≤ 10 * 0 + (c.toNat - 48); omega) (le_ofDigitChars l _)

/-! ### Hosts -/

theorem splitOnce_eq_some {c s a b} (h : splitOnce c s = some (a, b)) :
    s = a ++ String.singleton c ++ b := by
  unfold splitOnce at h
  split at h
  · rename_i i hi
    obtain ⟨hlt, hc, -⟩ := idxOf?_eq_some_iff.mp hi
    cases h
    apply String.toList_inj.mp
    simp only [String.toList_append, String.toList_ofList, String.toList_singleton, toList_drop]
    rw [append_assoc, singleton_append, ← hc, cons_getElem_drop_succ, take_append_drop]
  · cases h

/-- A host with the port behind it. -/
def withPort (host : String) (port : Option String) : String := host ++ port.elim "" (":" ++ ·)

variable {addrs : AddrParser} {loopback : Bool} {port : Option String}

/-- The checks on a host without brackets. -/
theorem isHost_of_checks (hsound : addrs.Sound) {host} {port'}
    (h : (if host ≠ "" && host.toList.all (fun c ↦ isAsciiAlphanumericChar c || c == '.' ||
        c == '-') && !(host.toList.head?.any ['-', '.'].contains) &&
        !(host.toList.getLast?.any ['-', '.'].contains) &&
        !(decide (['.', '.'] <:+: host.toList)) then (do
      let loopback ←
        (if (utf8Bytes host).all (fun b ↦ isAsciiDigit b || b == 46) then addrs.v4 host
        else some (host == "localhost"))
      return (loopback, port')) else none) = some (loopback, port)) :
    port' = port ∧ IsHost host ∧ IsPlain host ∧ (loopback → IsLoopbackHost host) := by
  obtain ⟨hok, h⟩ := ite_none_right_eq_some.mp h
  obtain ⟨loop, hloop, h⟩ := bind_eq_some_iff.mp h
  cases h
  simp only [Bool.and_eq_true, decide_eq_true_eq] at hok
  obtain ⟨⟨⟨⟨hne, hchars⟩, -⟩, -⟩, -⟩ := hok
  have hname : ∀ c ∈ host.toList, nameChar c := all_eq_true.mp hchars
  refine ⟨rfl, .inl ⟨hne, hname⟩, fun c hc ↦ by simp [plainChar, hname c hc], fun hloopback ↦ ?_⟩
  split_ifs at hloop with hdigits
  · obtain ⟨octets, hv4, rfl⟩ := hsound.v4 host _ hloop
    exact .inr (.inl ⟨octets, hv4, eq_of_beq hloopback⟩)
  · cases hloop
    exact .inl (eq_of_beq hloopback)

theorem plainHost_eq_some (hsound : addrs.Sound) {authority}
    (h : plainHost addrs authority = some (loopback, port)) : ∃ host,
    authority = withPort host port ∧ IsHost host ∧ IsPlain host ∧
      (loopback → IsLoopbackHost host) := by
  unfold plainHost at h
  cases hcut : splitOnce ':' authority with
  | none =>
    simp only [hcut] at h
    obtain ⟨rfl, hhost⟩ := isHost_of_checks hsound h
    exact ⟨authority, String.append_empty.symm, hhost⟩
  | some cut =>
    simp only [hcut] at h
    obtain ⟨rfl, hhost⟩ := isHost_of_checks hsound h
    refine ⟨cut.1, ?_, hhost⟩
    rw [splitOnce_eq_some hcut, String.append_assoc]
    rfl

theorem bracketHost_eq_some (hsound : addrs.Sound) {v6}
    (h : bracketHost addrs v6 = some (loopback, port)) : ∃ host,
    "[" ++ v6 = withPort host port ∧ IsHost host ∧ IsPlain host ∧
      (loopback → IsLoopbackHost host) := by
  obtain ⟨⟨lit, rest⟩, hcut, h⟩ := bind_eq_some_iff.mp h
  obtain ⟨loop, hv6, h⟩ := bind_eq_some_iff.mp h
  obtain ⟨addr, haddr, rfl⟩ := hsound.v6 lit loop hv6
  have hrest : loopback = (addr == ipv6Loopback) ∧ rest = port.elim "" (":" ++ ·) := by
    split at h
    · rename_i p hp
      cases h
      exact ⟨rfl, stripPrefix_eq_some.mp hp⟩
    · split_ifs at h with hempty
      cases h
      exact ⟨rfl, hempty⟩
  refine ⟨"[" ++ lit ++ "]", ?_, .inr (.inr ⟨lit, addr, rfl, haddr⟩),
    (IsPlain.append (all_eq_true.mp (by decide)) haddr.isPlain).append (all_eq_true.mp (by decide)),
    fun hloop ↦ .inr (.inr ⟨lit, rfl, ?_⟩)⟩
  · rw [splitOnce_eq_some hcut, hrest.2, withPort]
    simp [String.append_assoc]
  · rw [hrest.1] at hloop
    rwa [← eq_of_beq hloop]

/-! ### The cut -/

/-- The authority by its first `/` is the authority by the generic syntax, if it is plain. -/
theorem takeWhile_eq_of_isPlain {rest} (h : IsPlain ((split '/' rest).headD "")) :
    String.ofList (rest.toList.takeWhile (!"/?#".toList.contains ·)) =
      (split '/' rest).headD "" := by
  obtain ⟨x, l, hcut, hjoin⟩ := exists_splitOn_cons '/' rest
  have hhead : (split '/' rest).headD "" = String.ofList x := by simp [split, hcut]
  rw [hhead] at h ⊢
  have hplain : ∀ c ∈ x, (!"/?#".toList.contains c) = true := by
    intro c hc
    have hends : "/?#".toList.any plainChar = false := by decide
    have := h c (by rwa [String.toList_ofList])
    cases hmem : "/?#".toList.contains c with
    | false => rfl
    | true => exact absurd this (any_eq_false.mp hends c (contains_iff_mem.mp hmem))
  rw [hjoin, takeWhile_append_of_pos hplain]
  cases l with
  | nil | cons y l => simp

theorem genericSplit_append {scheme rest} (hscheme : scheme = "https" ∨ scheme = "http")
    (h : IsPlain ((split '/' rest).headD "")) :
    genericSplit (scheme ++ "://" ++ rest) = some (scheme, (split '/' rest).headD "") := by
  rw [← takeWhile_eq_of_isPlain h]
  rcases hscheme with rfl | rfl <;> simp [genericSplit]

/-- An endpoint is taken when the authority behind one of two schemes is. -/
theorem exists_judged {url} (h : endpointIsAcceptable addrs url = true) :
    ∃ secure rest, url = (if secure then "https" else "http") ++ "://" ++ rest ∧
      judged addrs secure ((split '/' rest).headD "") = true := by
  unfold endpointIsAcceptable at h
  split_ifs at h
  split at h
  · rename_i rest hrest
    exact ⟨true, rest, stripPrefix_eq_some.mp hrest, h⟩
  · cases hrest : stripPrefix "http://" url with
    | none =>
      rw [hrest] at h
      cases h
    | some rest =>
      rw [hrest] at h
      exact ⟨false, rest, stripPrefix_eq_some.mp hrest, h⟩

theorem of_judged (hsound : addrs.Sound) {secure} {authority}
    (h : judged addrs secure authority = true) :
    IsPlain authority ∧ '@' ∉ authority.toList ∧ ∃ host port, authority = withPort host port ∧
      IsHost host ∧ (∀ p ∈ port, IsPort p) ∧ (secure = true ∨ IsLoopbackHost host) := by
  unfold judged at h
  split_ifs at h with hat
  split at h
  · cases h
  · rename_i loopback port hjudged
    obtain ⟨host, hauth, hhost, hplain, hloop⟩ : ∃ host, authority = withPort host port ∧
        IsHost host ∧ IsPlain host ∧ (loopback → IsLoopbackHost host) := by
      split at hjudged
      · rename_i v6 hv6
        rw [stripPrefix_eq_some.mp hv6]
        exact bracketHost_eq_some hsound hjudged
      · exact plainHost_eq_some hsound hjudged
    obtain ⟨hports, hsecure⟩ := Bool.and_eq_true_iff.mp h
    have hports : ∀ p ∈ port, IsPort p := fun p hp ↦
      isPort_of_portIsAcceptable ((all_eq_true _ _).mp hports p hp)
    refine ⟨?_, hat, host, port, hauth, hhost, hports, ?_⟩
    · rw [hauth]
      refine hplain.append ?_
      cases port with
      | none => exact nofun
      | some p => exact IsPlain.append (all_eq_true.mp (by decide)) fun c hc ↦
          plainChar_of_isDigit ((hports p rfl).1 c hc)
    · exact (Bool.or_eq_true_iff.mp hsecure).imp_right hloop

/-- **Plain HTTP endpoints are loopback only**, and every endpoint that is taken has the host that
was judged, by the generic syntax too. -/
theorem endpoint_plain_http_is_loopback (addrs : AddrParser) (hsound : addrs.Sound) (url : String)
    (h : endpointIsAcceptable addrs url = true) :
    ∃ scheme authority host port, genericSplit url = some (scheme, authority) ∧
      '@' ∉ authority.toList ∧ authority = withPort host port ∧ IsHost host ∧
      (∀ p ∈ port, IsPort p) ∧ (scheme = "https" ∨ scheme = "http" ∧ IsLoopbackHost host) := by
  obtain ⟨secure, rest, rfl, hjudged⟩ := exists_judged h
  obtain ⟨hplain, hat, host, port, hauth, hhost, hports, hloop⟩ := of_judged hsound hjudged
  refine ⟨_, _, host, port, genericSplit_append ?_ hplain, hat, hauth, hhost, hports, ?_⟩
  · cases secure <;> simp
  · cases secure with
    | true => simp
    | false => simpa using hloop

/-- A parser that knows one address. -/
def oneAddress : AddrParser := ⟨fun s ↦ if s = "127.0.0.1" then some true else none, fun _ ↦ none⟩

theorem endpoint_plain_http_is_loopback_ipv4 :
    endpointIsAcceptable oneAddress "http://127.0.0.1/v1" = true ∧
    ∃ scheme authority host port,
      genericSplit "http://127.0.0.1/v1" = some (scheme, authority) ∧
      '@' ∉ authority.toList ∧ authority = withPort host port ∧ IsHost host ∧
      (∀ p ∈ port, IsPort p) ∧ (scheme = "https" ∨ scheme = "http" ∧ IsLoopbackHost host) := by
  have hsound : oneAddress.Sound :=
    ⟨fun s loopback h ↦ by
      simp only [oneAddress] at h
      split_ifs at h with hs
      exact ⟨[127, 0, 0, 1], hs ▸ by decide, (some.inj h).symm⟩, fun _ _ h ↦ nomatch h⟩
  have haccept : endpointIsAcceptable oneAddress "http://127.0.0.1/v1" = true := by decide
  exact ⟨haccept, endpoint_plain_http_is_loopback oneAddress hsound _ haccept⟩

end Maknae.Config
