import Macula.DirectDial.SeedUrl
import Mathlib.Data.List.TakeWhile

/-!
# Authorities

The authority of a URL is a host and a port, and the host is a DNS name, an IPv4 address or,
in brackets, an IPv6 address.  `parse_seed_url` cuts at the last colon and leaves the brackets
where they are, while an address is resolved without them; and what stands before the colon
need not be a host.
-/

namespace Macula.DirectDial

/-! ## Decimal numbers -/

def IsDigit (c : Char) : Prop := '0' ≤ c ∧ c ≤ '9'

instance (c : Char) : Decidable (IsDigit c) := inferInstanceAs (Decidable ('0' ≤ c ∧ c ≤ '9'))

/-- The number that `digits` continue `n` to. -/
def decimalFrom (n : Nat) (digits : List Char) : Nat :=
  digits.foldl (fun n d => 10 * n + (d.toNat - 0x30)) n

/-- The digits of a number that fits in sixteen bits. -/
structure IsPort (digits : List Char) : Prop where
  nonempty : digits ≠ []
  all : ∀ c ∈ digits, IsDigit c
  fits : decimalFrom 0 digits < 65536

theorem le_decimalFrom (n : Nat) (digits : List Char) : n ≤ decimalFrom n digits := by
  induction digits generalizing n with
  | nil => exact Nat.le_refl n
  | cons d digits ih =>
      have h := ih (10 * n + (d.toNat - 0x30))
      rw [decimalFrom, List.foldl_cons]
      exact Nat.le_trans (by omega) h

theorem foldlM_digits {digits : List Char} {n m : Nat} (hn : n < 65536) :
    digits.foldlM (fun n d =>
      if '0' ≤ d ∧ d ≤ '9' ∧ 10 * n + (d.toNat - 0x30) < 65536 then
        some (10 * n + (d.toNat - 0x30))
      else none) n = some m ↔
    (∀ c ∈ digits, IsDigit c) ∧ decimalFrom n digits = m ∧ m < 65536 := by
  induction digits generalizing n with
  | nil =>
      simp only [List.foldlM_nil, decimalFrom, List.foldl_nil]
      constructor
      · intro h
        obtain rfl := Option.some.inj h
        exact ⟨nofun, rfl, hn⟩
      · rintro ⟨-, rfl, -⟩
        rfl
  | cons d digits ih =>
      have hfrom : decimalFrom n (d :: digits) =
          decimalFrom (10 * n + (d.toNat - 0x30)) digits := rfl
      rw [List.foldlM_cons, List.forall_mem_cons, hfrom]
      by_cases h : '0' ≤ d ∧ d ≤ '9' ∧ 10 * n + (d.toNat - 0x30) < 65536
      · rw [if_pos h]
        change List.foldlM _ _ digits = some m ↔ _
        rw [ih h.2.2]
        exact ⟨fun ⟨hall, hm⟩ => ⟨⟨⟨h.1, h.2.1⟩, hall⟩, hm⟩, fun ⟨⟨_, hall⟩, hm⟩ => ⟨hall, hm⟩⟩
      · rw [if_neg h]
        constructor
        · intro hnone
          cases hnone
        · rintro ⟨⟨hd, -⟩, rfl, hlt⟩
          have hle := le_decimalFrom (10 * n + (d.toNat - 0x30)) digits
          exact absurd ⟨hd.1, hd.2, by omega⟩ h

/-- **A port** is read from its digits, and from those after a plus sign. -/
theorem parseU16_eq_some {s : String} {port : UInt16} : parseU16 s = some port ↔
    ∃ digits, (s.toList = digits ∨ s.toList = '+' :: digits) ∧ IsPort digits ∧
      port = .ofNat (decimalFrom 0 digits) := by
  have hread : ∀ digits : List Char, (if digits = [] then none
      else (digits.foldlM (fun n d =>
        if '0' ≤ d ∧ d ≤ '9' ∧ 10 * n + (d.toNat - 0x30) < 65536 then
          some (10 * n + (d.toNat - 0x30))
        else none) 0).map UInt16.ofNat) = some port ↔
      IsPort digits ∧ port = .ofNat (decimalFrom 0 digits) := by
    intro digits
    split
    · next hnil =>
        constructor
        · intro h
          cases h
        · rintro ⟨hport, -⟩
          exact absurd hnil hport.nonempty
    · next hne =>
        rw [Option.map_eq_some_iff]
        constructor
        · rintro ⟨m, hm, rfl⟩
          obtain ⟨hall, rfl, hlt⟩ := (foldlM_digits (by decide)).mp hm
          exact ⟨⟨hne, hall, hlt⟩, rfl⟩
        · rintro ⟨hport, rfl⟩
          exact ⟨_, (foldlM_digits (by decide)).mpr ⟨hport.all, rfl, hport.fits⟩, rfl⟩
  have hplus : ∀ {ds : List Char}, ¬ IsPort ('+' :: ds) := by
    intro ds h
    exact absurd (h.all '+' List.mem_cons_self) (by decide)
  dsimp only [parseU16]
  split
  · next ds hs =>
      rw [hs, hread]
      constructor
      · rintro ⟨hport, hp⟩
        exact ⟨ds, .inr rfl, hport, hp⟩
      · rintro ⟨digits, heq | heq, hport, hp⟩
        · exact absurd (heq ▸ hport) hplus
        · rw [(List.cons.inj heq).2]
          exact ⟨hport, hp⟩
  · next ds hne =>
      rw [hread]
      constructor
      · rintro ⟨hport, hp⟩
        exact ⟨_, .inl rfl, hport, hp⟩
      · rintro ⟨digits, heq | heq, hport, hp⟩
        · rw [heq]
          exact ⟨hport, hp⟩
        · exact absurd heq (hne digits)

theorem isDigit_of_isDigit {c : Char} (h : c.isDigit = true) : IsDigit c := by
  simp only [Char.isDigit, Bool.and_eq_true, decide_eq_true_eq] at h
  exact h

theorem decimalFrom_toDigits (n : Nat) : decimalFrom 0 (Nat.toDigits 10 n) = n := by
  induction n using Nat.strongRecOn with
  | ind n ih =>
      rw [Nat.toDigits_eq_if (by decide)]
      split
      · next hlt => simp [decimalFrom, Nat.toNat_digitChar_of_lt_ten hlt]
      · have hlast := Nat.toNat_digitChar_of_lt_ten (Nat.mod_lt n (by decide : 10 > 0))
        have hrest := ih (n / 10) (by omega)
        rw [decimalFrom, List.foldl_append]
        change 10 * decimalFrom 0 (Nat.toDigits 10 (n / 10)) + _ = n
        rw [hrest, hlast]
        omega

/-- The text of a port. -/
def portText (port : UInt16) : String := port.toNat.repr

theorem isPort_portText (port : UInt16) : IsPort (portText port).toList := by
  rw [portText, Nat.toList_repr]
  refine ⟨Nat.toDigits_ne_nil, ?_, ?_⟩
  · intro c hc
    exact isDigit_of_isDigit (Nat.isDigit_of_mem_toDigits (by decide) (by decide) hc)
  · rw [decimalFrom_toDigits]
    exact port.toNat_lt

theorem parseU16_portText (port : UInt16) : parseU16 (portText port) = some port := by
  refine parseU16_eq_some.mpr ⟨_, .inl rfl, isPort_portText port, ?_⟩
  rw [portText, Nat.toList_repr, decimalFrom_toDigits, UInt16.ofNat_toNat]

/-! ## Cutting at the last colon -/

/-- A list at the last place of an element of it. -/
theorem takeWhile_reverse {c : Char} {l a b : List Char} (h : l = a ++ c :: b) (hb : c ∉ b) :
    (l.reverse.takeWhile (· ≠ c)).reverse = b := by
  have hpos : ∀ x ∈ b.reverse, decide (x ≠ c) = true := by
    intro x hx
    have hne : x ≠ c := fun heq => hb (heq ▸ List.mem_reverse.mp hx)
    simpa using hne
  rw [h, List.reverse_append, List.reverse_cons, List.append_assoc, List.singleton_append,
    List.takeWhile_append_of_pos hpos, List.takeWhile_cons_of_neg (by simp), List.append_nil,
    List.reverse_reverse]

/-- There is a last place. -/
theorem exists_last {c : Char} {l : List Char} (h : c ∈ l) : ∃ a b, l = a ++ c :: b ∧ c ∉ b := by
  induction l with
  | nil => cases h
  | cons x l ih =>
      by_cases hc : c ∈ l
      · obtain ⟨a, b, rfl, hb⟩ := ih hc
        exact ⟨x :: a, b, rfl, hb⟩
      · rcases List.mem_cons.mp h with rfl | h
        · exact ⟨[], l, rfl, hc⟩
        · exact absurd h hc

theorem rsplitOnce_of_eq {s : String} {c : Char} {a b : List Char} (h : s.toList = a ++ c :: b)
    (hb : c ∉ b) : rsplitOnce s c = some (.ofList a, .ofList b) := by
  have hmem : c ∈ s.toList := by simp [h]
  have hlen : s.toList.length - (b.length + 1) = a.length := by
    rw [h, List.length_append, List.length_cons, Nat.add_sub_cancel]
  simp only [rsplitOnce, if_pos hmem, takeWhile_reverse h hb, hlen]
  rw [h, List.take_left]

theorem rsplitOnce_eq_some {s a b : String} {c : Char} :
    rsplitOnce s c = some (a, b) ↔ s.toList = a.toList ++ c :: b.toList ∧ c ∉ b.toList := by
  constructor
  · intro h
    by_cases hmem : c ∈ s.toList
    · obtain ⟨a', b', hs, hb⟩ := exists_last hmem
      rw [rsplitOnce_of_eq hs hb] at h
      obtain ⟨rfl, rfl⟩ := Prod.mk.inj (Option.some.inj h)
      rw [String.toList_ofList, String.toList_ofList]
      exact ⟨hs, hb⟩
    · rw [rsplitOnce, if_neg hmem] at h
      cases h
  · rintro ⟨hs, hb⟩
    rw [rsplitOnce_of_eq hs hb, String.ofList_toList, String.ofList_toList]

theorem stripPrefix_eq_some {s head t : String} :
    stripPrefix s head = some t ↔ s.toList = head.toList ++ t.toList := by
  rw [stripPrefix]
  constructor
  · intro h
    split at h
    · next hprefix =>
        obtain ⟨l, hl⟩ := hprefix
        obtain rfl := Option.some.inj h
        rw [← hl, String.toList_ofList, List.drop_left]
    · cases h
  · intro h
    rw [if_pos ⟨t.toList, h.symm⟩, h, List.drop_left, String.ofList_toList]

/-- What is cut at its last colon: all of the text, or what is between the scheme and a slash. -/
def hostport (seed : String) : List Char :=
  match (stripPrefix seed "https://").or (stripPrefix seed "http://") with
  | some rest => rest.toList.takeWhile (· ≠ '/')
  | none => seed.toList

/-- What comes of a text that is cut at its last colon. -/
theorem rsplitOnce_port {s host : String} {port : UInt16} : (do
    let (host, portStr) ← rsplitOnce s ':'
    let port ← parseU16 portStr
    return (host, port)) = some (host, port) ↔
    ∃ portStr, s.toList = host.toList ++ ':' :: portStr ∧ ':' ∉ portStr ∧
      parseU16 (.ofList portStr) = some port := by
  constructor
  · intro h
    obtain ⟨⟨a, b⟩, hsplit, h⟩ := Option.bind_eq_some_iff.mp h
    obtain ⟨p, hport, h⟩ := Option.bind_eq_some_iff.mp h
    obtain ⟨rfl, rfl⟩ := Prod.mk.inj (Option.some.inj h)
    obtain ⟨hs, hcolon⟩ := rsplitOnce_eq_some.mp hsplit
    exact ⟨b.toList, hs, hcolon, by rwa [String.ofList_toList]⟩
  · rintro ⟨portStr, hs, hcolon, hport⟩
    have hsplit : rsplitOnce s ':' = some (host, .ofList portStr) :=
      rsplitOnce_eq_some.mpr (by rw [String.toList_ofList]; exact ⟨hs, hcolon⟩)
    simp [hsplit, hport]

/-- **The parser** cuts at the last colon and reads a port after it. -/
theorem parseSeedUrl_eq_some {seed host : String} {port : UInt16} :
    parseSeedUrl seed = some (host, port) ↔
      ∃ portStr, hostport seed = host.toList ++ ':' :: portStr ∧ ':' ∉ portStr ∧
        parseU16 (.ofList portStr) = some port := by
  rw [parseSeedUrl, hostport]
  cases (stripPrefix seed "https://").or (stripPrefix seed "http://") with
  | some rest => exact rsplitOnce_port.trans (by rw [String.toList_ofList])
  | none => exact rsplitOnce_port

/-! ## Hosts -/

/-- Labels of letters, digits, hyphens and underscores, with dots between them. -/
inductive IsDnsName : List Char → Prop where
  | label {s : List Char} : s ≠ [] → (∀ c ∈ s, c.isAlphanum = true ∨ c = '-' ∨ c = '_') →
      IsDnsName s
  | dot {s t : List Char} : IsDnsName s → IsDnsName t → IsDnsName (s ++ '.' :: t)

/-- Four bytes in decimal, with dots between them. -/
inductive IsIpv4 : List Char → Prop where
  | dotted (a b c d : UInt8) : IsIpv4 (Nat.toDigits 10 a.toNat ++ '.' :: (Nat.toDigits 10 b.toNat ++
      '.' :: (Nat.toDigits 10 c.toNat ++ '.' :: Nat.toDigits 10 d.toNat)))

/-- One to four hexadecimal digits. -/
def IsGroup (s : List Char) : Prop :=
  s ≠ [] ∧ s.length ≤ 4 ∧ ∀ c ∈ s, IsDigit c ∨ ('a' ≤ c ∧ c ≤ 'f') ∨ ('A' ≤ c ∧ c ≤ 'F')

/-- `n` groups with colons between them. -/
inductive Groups : (n : Nat) → List Char → Prop where
  | one {s : List Char} : IsGroup s → Groups 1 s
  | cons {n : Nat} {s t : List Char} : IsGroup s → Groups n t → Groups (n + 1) (s ++ ':' :: t)

/-- The same, where an IPv4 address may stand for the last two. -/
inductive LastGroups : (n : Nat) → List Char → Prop where
  | one {s : List Char} : IsGroup s → LastGroups 1 s
  | ipv4 {s : List Char} : IsIpv4 s → LastGroups 2 s
  | cons {n : Nat} {s t : List Char} : IsGroup s → LastGroups n t →
      LastGroups (n + 1) (s ++ ':' :: t)

/-- Eight groups, or fewer around a double colon. -/
inductive IsIpv6 : List Char → Prop where
  | full {s : List Char} : LastGroups 8 s → IsIpv6 s
  | around {n m : Nat} {s t : List Char} : Groups n s → LastGroups m t → n + m ≤ 7 →
      IsIpv6 (s ++ ':' :: ':' :: t)
  | before {n : Nat} {s : List Char} : Groups n s → n ≤ 7 → IsIpv6 (s ++ [':', ':'])
  | after {m : Nat} {t : List Char} : LastGroups m t → m ≤ 7 → IsIpv6 (':' :: ':' :: t)
  | unspecified : IsIpv6 [':', ':']

inductive Host where
  | dns (name : String) (valid : IsDnsName name.toList)
  | ipv4 (literal : String) (valid : IsIpv4 literal.toList)
  | ipv6 (literal : String) (valid : IsIpv6 literal.toList)

namespace Host

/-- The host as an address is resolved from it. -/
def text : Host → String
  | dns name _ => name
  | ipv4 literal _ => literal
  | ipv6 literal _ => literal

/-- The host as a URL has it. -/
def inUrl : Host → String
  | dns name _ => name
  | ipv4 literal _ => literal
  | ipv6 literal _ => "[" ++ literal ++ "]"

def IsV6 : Host → Prop
  | ipv6 _ _ => True
  | _ => False

/-- The authority with this host and a port. -/
def authority (host : Host) (port : UInt16) : String := host.inUrl ++ ":" ++ portText port

end Host

inductive Scheme where
  | http
  | https

def Scheme.text : Scheme → String
  | .http => "http://"
  | .https => "https://"

/-- What follows an authority: nothing, or a slash and anything. -/
structure Path where
  text : String
  valid : text.toList = [] ∨ ∃ rest, text.toList = '/' :: rest

/-- What ends an authority. -/
def endsAuthority (c : Char) : Bool := c = '/' || c = '?' || c = '#'

/-! ### Their characters -/

theorem slash_notMem {s : List Char} (h : ∀ c ∈ s, endsAuthority c = false) : '/' ∉ s := by
  intro hc
  exact absurd (h _ hc) (by decide)

theorem ne_of_isDigit {c : Char} (h : IsDigit c) : c ≠ ':' ∧ endsAuthority c = false := by
  constructor
  · rintro rfl
    exact absurd h (by decide)
  · rw [Bool.eq_false_iff]
    intro hend
    simp only [endsAuthority, Bool.or_eq_true, decide_eq_true_eq] at hend
    rcases hend with (rfl | rfl) | rfl
    · exact absurd h (by decide)
    · exact absurd h (by decide)
    · exact absurd h (by decide)

theorem isDigit_of_mem_toDigits {c : Char} {n : Nat} (h : c ∈ Nat.toDigits 10 n) : IsDigit c :=
  isDigit_of_isDigit (Nat.isDigit_of_mem_toDigits (by decide) (by decide) h)

theorem IsDnsName.ends {s : List Char} (h : IsDnsName s) : ∀ c ∈ s, endsAuthority c = false := by
  induction h with
  | label _ hall =>
      intro c hc
      rw [Bool.eq_false_iff]
      intro hend
      simp only [endsAuthority, Bool.or_eq_true, decide_eq_true_eq] at hend
      rcases hend with (rfl | rfl) | rfl
      · exact absurd (hall _ hc) (by decide)
      · exact absurd (hall _ hc) (by decide)
      · exact absurd (hall _ hc) (by decide)
  | dot _ _ ihs iht =>
      intro c hc
      simp only [List.mem_append, List.mem_cons] at hc
      rcases hc with hc | rfl | hc
      · exact ihs c hc
      · rfl
      · exact iht c hc

theorem IsIpv4.ends {s : List Char} (h : IsIpv4 s) : ∀ c ∈ s, endsAuthority c = false := by
  cases h with
  | dotted a b c d =>
      intro x hx
      simp only [List.mem_append, List.mem_cons] at hx
      rcases hx with hx | rfl | hx | rfl | hx | rfl | hx
      · exact (ne_of_isDigit (isDigit_of_mem_toDigits hx)).2
      · rfl
      · exact (ne_of_isDigit (isDigit_of_mem_toDigits hx)).2
      · rfl
      · exact (ne_of_isDigit (isDigit_of_mem_toDigits hx)).2
      · rfl
      · exact (ne_of_isDigit (isDigit_of_mem_toDigits hx)).2

theorem ends_join {s t : List Char} {sep : Char} (hs : ∀ c ∈ s, endsAuthority c = false)
    (hsep : endsAuthority sep = false) (ht : ∀ c ∈ t, endsAuthority c = false) :
    ∀ c ∈ s ++ sep :: t, endsAuthority c = false := by
  intro c hc
  simp only [List.mem_append, List.mem_cons] at hc
  rcases hc with hc | rfl | hc
  · exact hs c hc
  · exact hsep
  · exact ht c hc

theorem ends_nil : ∀ c ∈ ([] : List Char), endsAuthority c = false := by
  simp

theorem IsGroup.ends {s : List Char} (h : IsGroup s) : ∀ c ∈ s, endsAuthority c = false := by
  intro c hc
  rw [Bool.eq_false_iff]
  intro hend
  simp only [endsAuthority, Bool.or_eq_true, decide_eq_true_eq] at hend
  rcases hend with (rfl | rfl) | rfl
  · exact absurd (h.2.2 _ hc) (by decide)
  · exact absurd (h.2.2 _ hc) (by decide)
  · exact absurd (h.2.2 _ hc) (by decide)

theorem Groups.ends {n : Nat} {s : List Char} (h : Groups n s) :
    ∀ c ∈ s, endsAuthority c = false := by
  induction h with
  | one hg => exact hg.ends
  | cons hg _ ih => exact ends_join hg.ends rfl ih

theorem LastGroups.ends {n : Nat} {s : List Char} (h : LastGroups n s) :
    ∀ c ∈ s, endsAuthority c = false := by
  induction h with
  | one hg => exact hg.ends
  | ipv4 h => exact h.ends
  | cons hg _ ih => exact ends_join hg.ends rfl ih

theorem IsIpv6.ends {s : List Char} (h : IsIpv6 s) : ∀ c ∈ s, endsAuthority c = false := by
  cases h with
  | full h => exact h.ends
  | around hs ht _ => exact ends_join hs.ends rfl (ends_join ends_nil rfl ht.ends)
  | before hs _ => exact ends_join hs.ends rfl (ends_join ends_nil rfl ends_nil)
  | after ht _ => exact ends_join ends_nil rfl (ends_join ends_nil rfl ht.ends)
  | unspecified => exact ends_join ends_nil rfl (ends_join ends_nil rfl ends_nil)

theorem ends_bracketed {s : List Char} (h : ∀ c ∈ s, endsAuthority c = false) :
    ∀ c ∈ '[' :: (s ++ [']']), endsAuthority c = false :=
  ends_join ends_nil rfl (ends_join h rfl ends_nil)

theorem Host.slash_inUrl (host : Host) : '/' ∉ host.inUrl.toList := by
  cases host with
  | dns _ valid => exact slash_notMem valid.ends
  | ipv4 _ valid => exact slash_notMem valid.ends
  | ipv6 _ valid => simp [Host.inUrl, slash_notMem valid.ends]

theorem Host.slash_text (host : Host) : '/' ∉ host.text.toList := by
  cases host with
  | dns _ valid => exact slash_notMem valid.ends
  | ipv4 _ valid => exact slash_notMem valid.ends
  | ipv6 _ valid => exact slash_notMem valid.ends

theorem portText_ne (port : UInt16) :
    ∀ c ∈ (portText port).toList, c ≠ ':' ∧ endsAuthority c = false := by
  intro c hc
  exact ne_of_isDigit ((isPort_portText port).all c hc)

theorem slash_portText (port : UInt16) : '/' ∉ (portText port).toList :=
  slash_notMem fun c hc => (portText_ne port c hc).2

/-! ## Seed URLs parsed -/

theorem hostport_of_slash {seed : String} (h : '/' ∉ seed.toList) :
    hostport seed = seed.toList := by
  have hnone : ∀ head : String, '/' ∈ head.toList → stripPrefix seed head = none := by
    intro head hhead
    cases hstrip : stripPrefix seed head with
    | none => rfl
    | some t =>
        rw [stripPrefix_eq_some.mp hstrip] at h
        exact absurd (List.mem_append_left _ hhead) h
  rw [hostport, hnone "https://" (by decide), hnone "http://" (by decide)]
  rfl

theorem hostport_of_scheme (scheme : Scheme) {rest : String} :
    hostport (scheme.text ++ rest) = rest.toList.takeWhile (· ≠ '/') := by
  have hstrip : (stripPrefix (scheme.text ++ rest) "https://").or
      (stripPrefix (scheme.text ++ rest) "http://") = some rest := by
    have hown : stripPrefix (scheme.text ++ rest) scheme.text = some rest :=
      stripPrefix_eq_some.mpr String.toList_append
    cases scheme with
    | https => rw [Scheme.text] at hown; rw [Scheme.text, hown]; rfl
    | http =>
        have hother : stripPrefix (Scheme.http.text ++ rest) "https://" = none := by
          cases hstrip : stripPrefix (Scheme.http.text ++ rest) "https://" with
          | none => rfl
          | some t =>
              have hlist := stripPrefix_eq_some.mp hstrip
              rw [String.toList_append] at hlist
              have hfifth := congrArg (fun l => l[4]?) hlist
              exact absurd hfifth (by simp [Scheme.text])
        rw [hother]
        exact hown
  rw [hostport, hstrip]

/-- A host and a port behind a colon are taken apart. -/
theorem parseSeedUrl_of_hostport {seed host : String} {port : UInt16}
    (h : hostport seed = (host ++ ":" ++ portText port).toList) :
    parseSeedUrl seed = some (host, port) := by
  refine parseSeedUrl_eq_some.mpr ⟨(portText port).toList, ?_, ?_, ?_⟩
  · rw [h, String.toList_append, String.toList_append, List.append_assoc]
    rfl
  · exact fun hc => (portText_ne port _ hc).1 rfl
  · rw [String.ofList_toList, parseU16_portText]

/-- An endpoint with this host and port comes back from every way of writing it. -/
structure ParsesBack (host : Host) (port : UInt16) : Prop where
  url : ∀ (scheme : Scheme) (path : Path),
    parseSeedUrl (scheme.text ++ (host.authority port ++ path.text)) = some (host.text, port)
  bare : parseSeedUrl (host.authority port) = some (host.text, port)
  plain : parseSeedUrl (host.text ++ ":" ++ portText port) = some (host.text, port)

theorem slash_authority (host : Host) (port : UInt16) : '/' ∉ (host.authority port).toList := by
  simp [Host.authority, host.slash_inUrl, slash_portText]

theorem parseSeedUrl_url (host : Host) (port : UInt16) (scheme : Scheme) (path : Path) :
    parseSeedUrl (scheme.text ++ (host.authority port ++ path.text)) = some (host.inUrl, port) := by
  apply parseSeedUrl_of_hostport
  have hpos : ∀ c ∈ (host.authority port).toList, decide (c ≠ '/') = true := by
    intro c hc
    have hne : c ≠ '/' := fun heq => slash_authority host port (heq ▸ hc)
    simpa using hne
  rw [hostport_of_scheme, String.toList_append, List.takeWhile_append_of_pos hpos]
  rcases path.valid with hnil | ⟨rest, hrest⟩
  · rw [hnil, List.takeWhile_nil, List.append_nil]
    rfl
  · rw [hrest, List.takeWhile_cons_of_neg (by decide), List.append_nil]
    rfl

theorem parseSeedUrl_bare (host : Host) (port : UInt16) :
    parseSeedUrl (host.authority port) = some (host.inUrl, port) :=
  parseSeedUrl_of_hostport (hostport_of_slash (slash_authority host port))

theorem parseSeedUrl_plain (host : Host) (port : UInt16) :
    parseSeedUrl (host.text ++ ":" ++ portText port) = some (host.text, port) := by
  apply parseSeedUrl_of_hostport
  apply hostport_of_slash
  simp [host.slash_text, slash_portText]

/-- The brackets of an IPv6 address stay. -/
theorem inUrl_eq_text_iff (host : Host) : host.inUrl = host.text ↔ ¬ host.IsV6 := by
  cases host with
  | dns _ _ => simp [Host.inUrl, Host.text, Host.IsV6]
  | ipv4 _ _ => simp [Host.inUrl, Host.text, Host.IsV6]
  | ipv6 literal _ =>
      simp only [Host.inUrl, Host.text, Host.IsV6, not_true_eq_false, iff_false]
      intro h
      have hlen := congrArg (fun s : String => s.toList.length) h
      simp only [String.toList_append, List.length_append] at hlen
      have hbracket : "[".toList.length = 1 := rfl
      omega

theorem parsesBack_iff (host : Host) (port : UInt16) : ParsesBack host port ↔ ¬ host.IsV6 := by
  rw [← inUrl_eq_text_iff]
  constructor
  · intro h
    have hbare := h.bare
    rw [parseSeedUrl_bare, Option.some.injEq, Prod.mk.injEq] at hbare
    exact hbare.1
  · intro h
    constructor
    · intro scheme path
      rw [parseSeedUrl_url, h]
    · rw [parseSeedUrl_bare, h]
    · exact parseSeedUrl_plain host port

/-! ## Seed URLs without a port -/

/-- The authority of a URL, or of a text without a scheme. -/
def authorityOf (seed : String) : List Char :=
  match (stripPrefix seed "https://").or (stripPrefix seed "http://") with
  | some rest => rest.toList.takeWhile fun c => !endsAuthority c
  | none => seed.toList.takeWhile fun c => !endsAuthority c

/-- What delimits the parts of a URL. -/
def IsDelim (c : Char) : Prop :=
  c = ':' ∨ c = '/' ∨ c = '?' ∨ c = '#' ∨ c = '[' ∨ c = ']' ∨ c = '@'

/-- A host in a URL: a name without delimiters, or an IPv6 address in brackets. -/
inductive IsUrlHost : List Char → Prop where
  | name {s : List Char} : (∀ c ∈ s, ¬ IsDelim c) → IsUrlHost s
  | ipv6 {s : List Char} : IsIpv6 s → IsUrlHost ('[' :: (s ++ [']']))

/-- What an authority has before its port: a host, and perhaps a user before it. -/
inductive BeforePort : List Char → Prop where
  | host {s : List Char} : IsUrlHost s → BeforePort s
  | user {u s : List Char} : (∀ c ∈ u, c = ':' ∨ ¬ IsDelim c) → IsUrlHost s →
      BeforePort (u ++ '@' :: s)

/-- The same for a seed; without a scheme it may be an address that is not in brackets. -/
inductive SeedHost (seed : String) : List Char → Prop where
  | url {s : List Char} : BeforePort s → SeedHost seed s
  | plain {s : List Char} : stripPrefix seed "https://" = none →
      stripPrefix seed "http://" = none → IsIpv6 s → SeedHost seed s

/-- The authority of a seed ends in a colon and a port, with a host before them. -/
def HasPort (seed : String) : Prop :=
  ∃ host digits, authorityOf seed = host ++ ':' :: digits ∧ SeedHost seed host ∧ IsPort digits

/-- What is cut at its last colon has a port behind it, but with a plus sign, or behind what is
no host: an address without its brackets, or a text that goes on past the end of the authority. -/
def Misread (seed : String) : Prop :=
  ∃ host digits, IsPort digits ∧ (hostport seed = host ++ ':' :: '+' :: digits ∨
    hostport seed = host ++ ':' :: digits ∧ ¬ SeedHost seed host)

/-! ### A host ends no authority -/

theorem ends_of_not_isDelim {c : Char} (h : c = ':' ∨ ¬ IsDelim c) : endsAuthority c = false := by
  rw [Bool.eq_false_iff]
  intro hend
  simp only [endsAuthority, Bool.or_eq_true, decide_eq_true_eq] at hend
  rcases h with rfl | h
  · exact absurd hend (by decide)
  · apply h
    simp only [IsDelim]
    rcases hend with (rfl | rfl) | rfl
    · simp
    · simp
    · simp

theorem IsUrlHost.ends {s : List Char} (h : IsUrlHost s) : ∀ c ∈ s, endsAuthority c = false := by
  cases h with
  | name hall => exact fun c hc => ends_of_not_isDelim (.inr (hall c hc))
  | ipv6 h => exact ends_bracketed h.ends

theorem BeforePort.ends {s : List Char} (h : BeforePort s) :
    ∀ c ∈ s, endsAuthority c = false := by
  cases h with
  | host h => exact h.ends
  | user hu h => exact ends_join (fun c hc => ends_of_not_isDelim (hu c hc)) rfl h.ends

theorem SeedHost.ends {seed : String} {s : List Char} (h : SeedHost seed s) :
    ∀ c ∈ s, endsAuthority c = false := by
  cases h with
  | url h => exact h.ends
  | plain _ _ h => exact h.ends

theorem takeWhile_slash (l : List Char) : (l.takeWhile (· ≠ '/')).takeWhile (!endsAuthority ·) =
    l.takeWhile (!endsAuthority ·) := by
  induction l with
  | nil => rfl
  | cons c l ih =>
      by_cases hslash : c = '/'
      · subst hslash
        rfl
      · by_cases hend : endsAuthority c = true
        · simp [hslash, hend]
        · simpa [hslash, hend] using ih

theorem authorityOf_eq (seed : String) :
    authorityOf seed = (hostport seed).takeWhile (!endsAuthority ·) := by
  rw [authorityOf, hostport]
  cases (stripPrefix seed "https://").or (stripPrefix seed "http://") with
  | none => rfl
  | some rest => exact (takeWhile_slash rest.toList).symm

/-- Some port is read. -/
theorem parseSeedUrl_ne_none {seed : String} : parseSeedUrl seed ≠ none ↔
    ∃ host digits, IsPort digits ∧
      (hostport seed = host ++ ':' :: '+' :: digits ∨ hostport seed = host ++ ':' :: digits) := by
  have hcolon : ∀ {digits}, IsPort digits → ':' ∉ digits := by
    intro digits hport hc
    exact (ne_of_isDigit (hport.all _ hc)).1 rfl
  rw [Option.ne_none_iff_exists']
  constructor
  · rintro ⟨⟨host, port⟩, h⟩
    obtain ⟨portStr, hsplit, -, hparse⟩ := parseSeedUrl_eq_some.mp h
    obtain ⟨digits, hstr, hport, -⟩ := parseU16_eq_some.mp hparse
    rw [String.toList_ofList] at hstr
    refine ⟨host.toList, digits, hport, ?_⟩
    rcases hstr with rfl | rfl
    · exact .inr hsplit
    · exact .inl hsplit
  · rintro ⟨host, digits, hport, hsplit | hsplit⟩
    · refine ⟨(.ofList host, .ofNat (decimalFrom 0 digits)), ?_⟩
      refine parseSeedUrl_eq_some.mpr ⟨'+' :: digits, ?_, ?_, ?_⟩
      · rw [String.toList_ofList, hsplit]
      · simp [hcolon hport]
      · exact parseU16_eq_some.mpr ⟨digits, .inr String.toList_ofList, hport, rfl⟩
    · refine ⟨(.ofList host, .ofNat (decimalFrom 0 digits)), ?_⟩
      refine parseSeedUrl_eq_some.mpr ⟨digits, ?_, hcolon hport, ?_⟩
      · rw [String.toList_ofList, hsplit]
      · exact parseU16_eq_some.mpr ⟨digits, .inl String.toList_ofList, hport, rfl⟩

/-- Without a port in the authority nothing is parsed, but for what is misread. -/
theorem parseSeedUrl_none_iff (seed : String) :
    (¬ HasPort seed → parseSeedUrl seed = none) ↔ HasPort seed ∨ ¬ Misread seed := by
  constructor
  · intro h
    by_cases hport : HasPort seed
    · exact .inl hport
    · right
      rintro ⟨host, digits, hdigits, hsplit⟩
      refine parseSeedUrl_ne_none.mpr ⟨host, digits, hdigits, ?_⟩ (h hport)
      exact hsplit.imp_right And.left
  · rintro (hport | hnot) hno
    · exact absurd hport hno
    · by_contra hsome
      obtain ⟨host, digits, hdigits, hplus | hplain⟩ := parseSeedUrl_ne_none.mp hsome
      · exact hnot ⟨host, digits, hdigits, .inl hplus⟩
      · by_cases hhost : SeedHost seed host
        · apply hno
          refine ⟨host, digits, ?_, hhost, hdigits⟩
          -- neither the host nor the digits end the authority
          have hends := ends_join hhost.ends (rfl : endsAuthority ':' = false)
            fun c hc => (ne_of_isDigit (hdigits.all c hc)).2
          have hall : ∀ c ∈ host ++ ':' :: digits, (!endsAuthority c) = true := by
            intro c hc
            rw [hends c hc]
            rfl
          rw [authorityOf_eq, hplain, List.takeWhile_eq_self_iff.mpr hall]
        · exact hnot ⟨host, digits, hdigits, .inr ⟨hplain, hhost⟩⟩

/-- **Seed URLs.**  Every endpoint comes back but those at an IPv6 address, which keeps its
brackets; and nothing comes of a text without a port, unless a plus sign stands before the digits
or there is no host in front of them. -/
theorem parseSeedUrl_exact (host : Host) (port : UInt16) (seed : String) :
    (ParsesBack host port ↔ ¬ host.IsV6) ∧
    ((¬ HasPort seed → parseSeedUrl seed = none) ↔ HasPort seed ∨ ¬ Misread seed) :=
  ⟨parsesBack_iff host port, parseSeedUrl_none_iff seed⟩

/-- An address without its brackets loses its last group. -/
example : parseSeedUrl "https://2001:db8::1/" = some ("2001:db8:", 1) := by decide

theorem isGroup_digit {c : Char} (h : IsDigit c) : IsGroup [c] := by
  refine ⟨nofun, by simp, fun c' hc' => ?_⟩
  obtain rfl := List.mem_singleton.mp hc'
  exact .inl h

/-- The loopback address. -/
def loopback : Host :=
  .ipv6 "::1" (.after (.one (isGroup_digit (by decide : IsDigit '1'))) (by decide))

/-- It comes back in brackets. -/
theorem not_parsesBack_loopback : ¬ ParsesBack loopback 4433 := by
  intro h
  have hurl := h.url .https ⟨"/", .inr ⟨[], rfl⟩⟩
  exact absurd hurl (by decide)

end Macula.DirectDial
