import Erbridge.Config.MapFlag
import Mathlib.Data.List.Permutation

/-!
# The syntax of `--map`

What `parse_map_flag` accepts, said without its two filters, its join and its order of tests.

* `Means` — the parts of a `SPEC`, in lower case, and the protocol and transport they stand for.
* `Reads` — a whole flag and its pieces.
* `parseProtocol_eq_ok_iff`, `parseMapFlag_eq_ok_iff` — the parser accepts exactly these.
* `Means.perm` — the order of the parts does not matter.
* `map_flag_syntax` — the two together, and that a rule which is printed is read back.
-/

namespace Erbridge
namespace Config

open Tenancy (trim)

/-! ## Splitting -/

theorem rsplitOnce_eq_none_iff {sep : Char} {s : List Char} :
    rsplitOnce sep s = none ↔ sep ∉ s := by
  induction s with
  | nil => simp [rsplitOnce]
  | cons c cs ih =>
      rw [rsplitOnce, List.mem_cons, not_or, ← ih]
      cases rsplitOnce sep cs with
      | some p => simp
      | none => simp [eq_comm]

theorem rsplitOnce_append {sep : Char} {after : List Char} (h : sep ∉ after) (before : List Char) :
    rsplitOnce sep (before ++ sep :: after) = some (before, after) := by
  induction before with
  | nil =>
      show rsplitOnce sep (sep :: after) = _
      rw [rsplitOnce, rsplitOnce_eq_none_iff.2 h]
      exact if_pos rfl
  | cons c cs ih =>
      show rsplitOnce sep (c :: (cs ++ sep :: after)) = _
      rw [rsplitOnce, ih]

/-- `rsplit_once` splits at the last occurrence. -/
theorem rsplitOnce_eq_some_iff {sep : Char} {s before after : List Char} :
    rsplitOnce sep s = some (before, after) ↔ s = before ++ sep :: after ∧ sep ∉ after := by
  constructor
  · intro h
    induction s generalizing before with
    | nil => cases h
    | cons c cs ih =>
        rw [rsplitOnce] at h
        split at h
        · rename_i front back hrest
          obtain ⟨rfl, rfl⟩ := Prod.mk.inj (Option.some.inj h)
          obtain ⟨rfl, hback⟩ := ih hrest
          exact ⟨rfl, hback⟩
        · rename_i hrest
          split at h
          · rename_i hsep
            obtain ⟨rfl, rfl⟩ := Prod.mk.inj (Option.some.inj h)
            exact ⟨by rw [hsep]; rfl, rsplitOnce_eq_none_iff.1 hrest⟩
          · cases h
  · rintro ⟨rfl, h⟩
    exact rsplitOnce_append h before

/-- There is no arrow in the text. -/
def NoArrow (s : List Char) : Prop := ¬['-', '>'] <:+: s

theorem noArrow_nil : NoArrow [] := by
  simp [NoArrow]

/-- An arrow begins at the first character or later. -/
theorem noArrow_cons_iff {c : Char} {cs : List Char} :
    NoArrow (c :: cs) ↔ ¬(c = '-' ∧ cs.head? = some '>') ∧ NoArrow cs := by
  have hprefix : ['-', '>'] <+: c :: cs ↔ c = '-' ∧ cs.head? = some '>' := by
    cases cs with
    | nil => simp [List.cons_prefix_cons]
    | cons d ds => simp [List.cons_prefix_cons, eq_comm]
  rw [NoArrow, List.infix_cons_iff, hprefix, not_or, NoArrow]

/-- The step of `splitArrow` over a character at which no arrow begins. -/
theorem splitArrow_cons {c : Char} {cs : List Char} (h : ¬(c = '-' ∧ cs.head? = some '>')) :
    splitArrow (c :: cs) = (splitArrow cs).map fun p => (c :: p.1, p.2) := by
  rw [splitArrow]
  intro rest hc hcs
  exact h ⟨hc, by rw [hcs]; rfl⟩

theorem splitArrow_append {before : List Char} (h : NoArrow before) (after : List Char) :
    splitArrow (before ++ '-' :: '>' :: after) = some (before, after) := by
  induction before with
  | nil => rfl
  | cons c cs ih =>
      obtain ⟨hfirst, hrest⟩ := noArrow_cons_iff.1 h
      have hstep : ¬(c = '-' ∧ (cs ++ '-' :: '>' :: after).head? = some '>') := by
        rintro ⟨rfl, hhead⟩
        cases cs with
        | nil => simp at hhead
        | cons d ds => exact hfirst ⟨rfl, by simpa using hhead⟩
      show splitArrow (c :: (cs ++ '-' :: '>' :: after)) = _
      rw [splitArrow_cons hstep, ih hrest]
      rfl

/-- `splitn(2, "->")` splits at the first arrow. -/
theorem splitArrow_eq_some_iff {s before after : List Char} :
    splitArrow s = some (before, after) ↔ s = before ++ '-' :: '>' :: after ∧ NoArrow before := by
  constructor
  · intro h
    induction s generalizing before with
    | nil => cases h
    | cons c cs ih =>
        by_cases harrow : c = '-' ∧ cs.head? = some '>'
        · obtain ⟨rfl, hhead⟩ := harrow
          cases cs with
          | nil => cases hhead
          | cons d ds =>
              obtain rfl := Option.some.inj hhead
              obtain ⟨rfl, rfl⟩ := Prod.mk.inj (Option.some.inj h)
              exact ⟨rfl, noArrow_nil⟩
        · rw [splitArrow_cons harrow, Option.map_eq_some_iff] at h
          obtain ⟨⟨front, back⟩, hrest, heq⟩ := h
          obtain ⟨rfl, rfl⟩ := Prod.mk.inj heq
          obtain ⟨rfl, hfront⟩ := ih hrest
          refine ⟨rfl, noArrow_cons_iff.2 ⟨?_, hfront⟩⟩
          rintro ⟨rfl, hhead⟩
          cases front with
          | nil => cases hhead
          | cons d ds => exact harrow ⟨rfl, hhead⟩
  · rintro ⟨rfl, h⟩
    exact splitArrow_append h after

/-! ## The parts of a `SPEC` -/

/-- The words of the two transports. -/
def Transport.word : Transport → List Char
  | .tls => "tls".toList
  | .noise => "noise".toList

/-- What stands between the plus signs, in lower case. -/
def lowerParts (spec : List Char) : List (List Char) := (spec.splitOn '+').map asciiLowercase

/-- What the parts of a `SPEC` stand for. -/
inductive Means : List (List Char) → ProtocolKind → Option Transport → Prop
  | tcp : Means ["tcp".toList] .tcp none
  | udp : Means ["udp".toList] .udp none
  | both : Means ["both".toList] .both none
  | tcpUdp : Means ["tcp".toList, "udp".toList] .both none
  | udpTcp : Means ["udp".toList, "tcp".toList] .both none
  /-- One transport, and besides it nothing, an empty part or `tcp`. -/
  | secured {parts others : List (List Char)} {t : Transport} (hparts : parts.Perm (t.word :: others))
      (hothers : others = [] ∨ others = [[]] ∨ others = ["tcp".toList]) :
      Means parts .tcp (some t)

/-- The order of the parts does not matter. -/
theorem Means.perm {parts parts' : List (List Char)} {p : ProtocolKind} {t : Option Transport}
    (h : Means parts p t) (hperm : parts'.Perm parts) : Means parts' p t := by
  cases h with
  | tcp =>
      rw [List.perm_singleton.1 hperm]
      exact .tcp
  | udp =>
      rw [List.perm_singleton.1 hperm]
      exact .udp
  | both =>
      rw [List.perm_singleton.1 hperm]
      exact .both
  | tcpUdp =>
      rcases List.perm_pair.1 hperm with rfl | rfl
      · exact .tcpUdp
      · exact .udpTcp
  | udpTcp =>
      rcases List.perm_pair.1 hperm with rfl | rfl
      · exact .udpTcp
      · exact .tcpUdp
  | secured hparts hothers => exact .secured (hperm.trans hparts) hothers

theorem asciiLowercase_append (a b : List Char) :
    asciiLowercase (a ++ b) = asciiLowercase a ++ asciiLowercase b := List.map_append

/-- Only an upper-case letter changes, and into a letter. -/
theorem toLower_eq_plus_iff {c : Char} : c.toLower = '+' ↔ c = '+' := by
  unfold Char.toLower
  split
  · rename_i hupper
    obtain ⟨hlow, hhigh⟩ := hupper
    have hlow : 65 ≤ c.val.toNat := UInt32.le_iff_toNat_le.1 hlow
    have hhigh : c.val.toNat ≤ 90 := UInt32.le_iff_toNat_le.1 hhigh
    constructor
    · intro heq
      have hval : (c.val + 32).toNat = 43 := congrArg (fun d : Char => d.val.toNat) heq
      have hgap : (32 : UInt32).toNat = 32 := rfl
      rw [UInt32.toNat_add, hgap] at hval
      omega
    · rintro rfl
      exact absurd hlow (by decide)
  · rfl

theorem notMem_of_mem_splitOn {a : Char} {s part : List Char} (h : part ∈ s.splitOn a) :
    a ∉ part := by
  induction s generalizing part with
  | nil =>
      obtain rfl : part = [] := by simpa using h
      simp
  | cons c cs ih =>
      rw [List.splitOn_cons_eq_if_modifyHead] at h
      split at h
      · rcases List.mem_cons.1 h with rfl | h
        · simp
        · exact ih h
      · rename_i hne
        cases hparts : cs.splitOn a with
        | nil => exact absurd hparts (List.splitOn_ne_nil a cs)
        | cons first rest =>
            rw [hparts, List.modifyHead_cons] at h
            rw [hparts] at ih
            rcases List.mem_cons.1 h with rfl | h
            · rw [List.mem_cons, not_or]
              exact ⟨fun heq => hne (by simp [heq]), ih List.mem_cons_self⟩
            · exact ih (List.mem_cons_of_mem _ h)

theorem plus_notMem_of_mem_lowerParts {spec part : List Char} (h : part ∈ lowerParts spec) :
    '+' ∉ part := by
  obtain ⟨original, horiginal, rfl⟩ := List.mem_map.1 h
  intro hplus
  obtain ⟨c, hc, hlower⟩ := List.mem_map.1 hplus
  rw [toLower_eq_plus_iff.1 hlower] at hc
  exact notMem_of_mem_splitOn horiginal hc

/-! ## The two filters -/

/-- The word of a transport. -/
def isTransportWord (word : List Char) : Bool := word = Transport.tls.word || word = Transport.noise.word

/-- The parts of a `SPEC` that name a transport. -/
def transportWords (spec : List Char) : List (List Char) := (lowerParts spec).filter isTransportWord

/-- Those that do not. -/
def otherWords (spec : List Char) : List (List Char) :=
  (lowerParts spec).filter fun word => !isTransportWord word

theorem eqIgnoreAsciiCase_word (part : List Char) (t : Transport) :
    eqIgnoreAsciiCase part t.word = decide (asciiLowercase part = t.word) := by
  have hword : asciiLowercase t.word = t.word := by
    cases t <;> rfl
  rw [eqIgnoreAsciiCase, hword]

theorem isTransport_eq (part : List Char) :
    isTransport part = isTransportWord (asciiLowercase part) := by
  have htls := eqIgnoreAsciiCase_word part .tls
  have hnoise := eqIgnoreAsciiCase_word part .noise
  show (eqIgnoreAsciiCase part Transport.tls.word || eqIgnoreAsciiCase part Transport.noise.word) = _
  rw [htls, hnoise]
  rfl

theorem map_filter_isTransport (spec : List Char) :
    ((spec.splitOn '+').filter isTransport).map asciiLowercase = transportWords spec := by
  have hfilter : isTransport = isTransportWord ∘ asciiLowercase := funext isTransport_eq
  rw [hfilter, transportWords, lowerParts, List.filter_map]

theorem map_filter_not_isTransport (spec : List Char) :
    ((spec.splitOn '+').filter fun part => !isTransport part).map asciiLowercase = otherWords spec := by
  have hfilter : (fun part => !isTransport part) = (fun word => !isTransportWord word) ∘ asciiLowercase :=
    funext fun part => congrArg (fun b => !b) (isTransport_eq part)
  rw [hfilter, otherWords, lowerParts, List.filter_map]

/-- The transport words a `SPEC` has for a transport, or for none. -/
def wordsOf : Option Transport → List (List Char)
  | none => []
  | some t => [t.word]

theorem parseTransport_eq_ok_iff {spec : List Char} {transport : Option Transport} :
    parseTransport spec = .ok transport ↔ transportWords spec = wordsOf transport := by
  rw [← map_filter_isTransport, parseTransport]
  split
  · rename_i hnone
    rw [hnone]
    cases transport <;> simp [wordsOf]
  · rename_i part hone
    have hpart : part ∈ (spec.splitOn '+').filter isTransport := by simp [hone]
    have hword := (List.mem_filter.1 hpart).2
    have htls := eqIgnoreAsciiCase_word part .tls
    have hnoise := eqIgnoreAsciiCase_word part .noise
    rw [isTransport_eq, isTransportWord, Bool.or_eq_true, decide_eq_true_eq,
      decide_eq_true_eq] at hword
    simp only [Transport.word] at htls hnoise hword
    rw [hone, htls, hnoise, List.map_singleton]
    rcases hword with hword | hword
    · rw [hword]
      cases transport with
      | none => simp [wordsOf]
      | some t => cases t <;> simp [wordsOf, Transport.word]
    · rw [hword]
      cases transport with
      | none => simp [wordsOf]
      | some t => cases t <;> simp [wordsOf, Transport.word]
  · rename_i hnone hone
    refine ⟨fun h => (by cases h), fun h => ?_⟩
    cases transport with
    | none => exact absurd (List.map_eq_nil_iff.1 h) hnone
    | some t =>
        obtain ⟨part, hpart, -⟩ := List.map_eq_singleton_iff.1 h
        exact absurd hpart (hone part)

theorem asciiLowercase_intercalate (parts : List (List Char)) :
    asciiLowercase (['+'].intercalate parts) = ['+'].intercalate (parts.map asciiLowercase) := by
  induction parts with
  | nil => rfl
  | cons part rest ih =>
      cases rest with
      | nil => simp
      | cons next rest =>
          rw [List.intercalate_cons_cons, asciiLowercase_append, asciiLowercase_append, ih]
          show _ = ['+'].intercalate (asciiLowercase part :: asciiLowercase next :: rest.map asciiLowercase)
          rw [List.intercalate_cons_cons]
          rfl

/-- What `parse_protocol` matches on, joined from the parts that name no transport. -/
theorem joined_eq (spec : List Char) :
    asciiLowercase (['+'].intercalate ((spec.splitOn '+').filter fun part => !isTransport part))
      = ['+'].intercalate (otherWords spec) := by
  rw [asciiLowercase_intercalate, map_filter_not_isTransport]

theorem plus_notMem_of_mem_otherWords {spec part : List Char} (h : part ∈ otherWords spec) :
    '+' ∉ part :=
  plus_notMem_of_mem_lowerParts (List.mem_filter.1 h).1

theorem joined_eq_nil_iff {spec : List Char} :
    ['+'].intercalate (otherWords spec) = [] ↔ otherWords spec = [] ∨ otherWords spec = [[]] := by
  cases otherWords spec with
  | nil => simp
  | cons part rest =>
      cases rest with
      | nil => simp
      | cons next rest => simp [List.intercalate_cons_cons]

/-- The join of parts without a plus sign determines them. -/
theorem joined_eq_iff {spec word : List Char} (hword : word ≠ []) :
    ['+'].intercalate (otherWords spec) = word ↔ otherWords spec = word.splitOn '+' := by
  constructor
  · rintro rfl
    have hne : otherWords spec ≠ [] := by
      intro hnil
      rw [hnil] at hword
      exact hword rfl
    exact (List.splitOn_intercalate '+' (fun _ => plus_notMem_of_mem_otherWords) hne).symm
  · intro h
    rw [h, List.intercalate_splitOn]

theorem ofList_eq_iff {chars : List Char} {text : String} :
    String.ofList chars = text ↔ chars = text.toList := by
  rw [← String.toList_inj, String.toList_ofList]

/-- The words besides a transport that are accepted, and what they stand for. -/
def KindOf (others : List (List Char)) (transport : Option Transport) : ProtocolKind → Prop
  | .tcp => (transport.isSome ∧ (others = [] ∨ others = [[]])) ∨ others = ["tcp".toList]
  | .udp => others = ["udp".toList]
  | .both =>
      others = ["both".toList] ∨ others = ["tcp".toList, "udp".toList]
        ∨ others = ["udp".toList, "tcp".toList]

theorem parseKind_eq_ok_iff {spec : List Char} {transport : Option Transport}
    {protocol : ProtocolKind} :
    parseKind spec transport = .ok protocol ↔ KindOf (otherWords spec) transport protocol := by
  have hempty : ['+'].intercalate (otherWords spec) = "".toList ↔
      otherWords spec = [] ∨ otherWords spec = [[]] := joined_eq_nil_iff
  have htcp : ['+'].intercalate (otherWords spec) = "tcp".toList ↔
      otherWords spec = ["tcp".toList] := joined_eq_iff (by decide)
  have hudp : ['+'].intercalate (otherWords spec) = "udp".toList ↔
      otherWords spec = ["udp".toList] := joined_eq_iff (by decide)
  have hboth : ['+'].intercalate (otherWords spec) = "both".toList ↔
      otherWords spec = ["both".toList] := joined_eq_iff (by decide)
  have htcpUdp : ['+'].intercalate (otherWords spec) = "tcp+udp".toList ↔
      otherWords spec = ["tcp".toList, "udp".toList] := joined_eq_iff (by decide)
  have hudpTcp : ['+'].intercalate (otherWords spec) = "udp+tcp".toList ↔
      otherWords spec = ["udp".toList, "tcp".toList] := joined_eq_iff (by decide)
  simp only [parseKind, joined_eq, ofList_eq_iff, hempty, htcp, hudp, hboth, htcpUdp, hudpTcp]
  generalize otherWords spec = others
  split
  · rename_i h
    obtain ⟨hothers, hsome⟩ := h
    rcases hothers with rfl | rfl <;> cases protocol <;> simp [KindOf, hsome]
  · rename_i hnone
    split
    · rename_i h
      rw [h]
      cases protocol <;> simp [KindOf]
    · rename_i hntcp
      split
      · rename_i h
        rw [h]
        cases protocol <;> simp [KindOf]
      · rename_i hnudp
        split
        · rename_i h
          rcases h with rfl | rfl | rfl <;> cases protocol <;> simp [KindOf]
        · rename_i hnboth
          cases protocol with
          | tcp =>
              refine iff_of_false (by simp) ?_
              rintro (⟨hsome, hothers⟩ | htcp)
              · exact hnone ⟨hothers, hsome⟩
              · exact hntcp htcp
          | udp => exact iff_of_false (by simp) hnudp
          | both => exact iff_of_false (by simp) hnboth

theorem parseProtocol_cases {spec : List Char} {protocol : ProtocolKind}
    {transport : Option Transport} :
    parseProtocol spec = .ok (protocol, transport) ↔
      parseTransport spec = .ok transport ∧ parseKind spec transport = .ok protocol
        ∧ (transport = none ∨ protocol = .tcp) := by
  unfold parseProtocol
  cases parseTransport spec with
  | error e => simp
  | ok transport' =>
      dsimp only
      cases hkind : parseKind spec transport' with
      | error e =>
          simp only [reduceCtorEq, Except.ok.injEq, false_iff]
          rintro ⟨rfl, hkind', -⟩
          rw [hkind] at hkind'
          cases hkind'
      | ok protocol' =>
          simp only [Except.ok.injEq]
          split
          · rename_i hmixed
            refine iff_of_false (by simp) ?_
            rintro ⟨rfl, hprotocol, hfits⟩
            rw [hkind] at hprotocol
            obtain rfl := Except.ok.inj hprotocol
            rcases hfits with rfl | htcp
            · cases hmixed.1
            · exact hmixed.2 htcp
          · rename_i hfits
            simp only [Except.ok.injEq, Prod.mk.injEq]
            constructor
            · rintro ⟨rfl, rfl⟩
              refine ⟨rfl, hkind, ?_⟩
              cases transport' with
              | none => exact Or.inl rfl
              | some t => exact Or.inr (not_not.1 fun hne => hfits ⟨rfl, hne⟩)
            · rintro ⟨rfl, hprotocol, -⟩
              rw [hkind] at hprotocol
              exact ⟨Except.ok.inj hprotocol, rfl⟩

theorem otherWords_of_transportWords_nil {spec : List Char} (h : transportWords spec = []) :
    otherWords spec = lowerParts spec := by
  apply List.filter_eq_self.2
  intro word hword
  have hno := List.filter_eq_nil_iff.1 h word hword
  simpa using hno

theorem words_perm (spec : List Char) :
    (transportWords spec ++ otherWords spec).Perm (lowerParts spec) :=
  List.filter_append_perm isTransportWord (lowerParts spec)

/-- The words of parts without a transport. -/
theorem words_of_lowerParts {spec : List Char} {parts : List (List Char)}
    (h : lowerParts spec = parts) (hplain : parts.filter isTransportWord = []) :
    transportWords spec = [] ∧ otherWords spec = parts := by
  have hnone : transportWords spec = [] := by
    rw [transportWords, h, hplain]
  exact ⟨hnone, (otherWords_of_transportWords_nil hnone).trans h⟩

theorem isTransportWord_word (t : Transport) : isTransportWord t.word = true := by
  cases t <;> rfl

/-- **The parts of a `SPEC` that are accepted.** -/
theorem parseProtocol_eq_ok_iff {spec : List Char} {protocol : ProtocolKind}
    {transport : Option Transport} :
    parseProtocol spec = .ok (protocol, transport) ↔ Means (lowerParts spec) protocol transport := by
  rw [parseProtocol_cases, parseTransport_eq_ok_iff, parseKind_eq_ok_iff]
  constructor
  · rintro ⟨hwords, hkind, hfits⟩
    cases transport with
    | none =>
        rw [← otherWords_of_transportWords_nil hwords]
        cases protocol with
        | tcp =>
            rcases hkind with ⟨hsome, -⟩ | hothers
            · cases hsome
            · rw [hothers]
              exact .tcp
        | udp =>
            have hothers : otherWords spec = ["udp".toList] := hkind
            rw [hothers]
            exact .udp
        | both =>
            rcases hkind with hothers | hothers | hothers
            · rw [hothers]
              exact .both
            · rw [hothers]
              exact .tcpUdp
            · rw [hothers]
              exact .udpTcp
    | some t =>
        obtain rfl : protocol = .tcp := hfits.resolve_left (by simp)
        have hperm := (words_perm spec).symm
        rw [hwords] at hperm
        refine .secured hperm ?_
        rcases hkind with ⟨-, hothers⟩ | hothers
        · rw [← or_assoc]
          exact Or.inl hothers
        · exact Or.inr (Or.inr hothers)
  · intro h
    generalize hparts : lowerParts spec = parts at h
    cases h with
    | tcp =>
        obtain ⟨hwords, hothers⟩ := words_of_lowerParts hparts (by decide)
        exact ⟨hwords, Or.inr hothers, Or.inl rfl⟩
    | udp =>
        obtain ⟨hwords, hothers⟩ := words_of_lowerParts hparts (by decide)
        exact ⟨hwords, hothers, Or.inl rfl⟩
    | both =>
        obtain ⟨hwords, hothers⟩ := words_of_lowerParts hparts (by decide)
        exact ⟨hwords, Or.inl hothers, Or.inl rfl⟩
    | tcpUdp =>
        obtain ⟨hwords, hothers⟩ := words_of_lowerParts hparts (by decide)
        exact ⟨hwords, Or.inr (Or.inl hothers), Or.inl rfl⟩
    | udpTcp =>
        obtain ⟨hwords, hothers⟩ := words_of_lowerParts hparts (by decide)
        exact ⟨hwords, Or.inr (Or.inr hothers), Or.inl rfl⟩
    | @secured _ others t hperm hothers =>
        have hplain : others.filter isTransportWord = [] ∧
            others.filter (fun word => !isTransportWord word) = others := by
          rcases hothers with rfl | rfl | rfl <;> decide
        have hwords : transportWords spec = [t.word] := by
          apply List.perm_singleton.1
          have hfilter := hperm.filter isTransportWord
          rw [List.filter_cons_of_pos (isTransportWord_word t), hplain.1] at hfilter
          rwa [transportWords, hparts]
        have hrest : (otherWords spec).Perm others := by
          have hfilter := hperm.filter fun word => !isTransportWord word
          rw [List.filter_cons_of_neg (by simp [isTransportWord_word t]), hplain.2] at hfilter
          rwa [otherWords, hparts]
        refine ⟨hwords, ?_, Or.inr rfl⟩
        rcases hothers with rfl | rfl | rfl
        · exact Or.inl ⟨rfl, Or.inl (List.perm_nil.1 hrest)⟩
        · exact Or.inl ⟨rfl, Or.inr (List.perm_singleton.1 hrest)⟩
        · exact Or.inr (List.perm_singleton.1 hrest)

/-! ## Whole flags -/

/-- A flag with its pieces: what is written for `LISTEN` and for `TARGET`, and what the `SPEC` stands
for. -/
inductive Reads (raw : List Char) : List Char → List Char → ProtocolKind → Option Transport → Prop
  | bare {listen target : List Char} (hraw : raw = listen ++ '-' :: '>' :: target)
      (hslash : '/' ∉ raw) (harrow : NoArrow listen) : Reads raw listen target .both none
  | spec {listen target spec : List Char} {protocol : ProtocolKind} {transport : Option Transport}
      (hraw : raw = (listen ++ '-' :: '>' :: target) ++ '/' :: spec) (hslash : '/' ∉ spec)
      (harrow : NoArrow listen) (hmeans : Means (lowerParts spec) protocol transport) :
      Reads raw listen target protocol transport

/-- The rule of a flag with these pieces. -/
def ruleOf (listen target : List Char) (protocol : ProtocolKind) (transport : Option Transport) :
    ForwardRule where
  name := none
  listen :=
    if isU16 (trim listen) then "0.0.0.0:" ++ String.ofList (trim listen)
    else String.ofList (trim listen)
  target := String.ofList (trim target)
  protocol := protocol
  udpIdleSecs := 60
  transport := transport
  token := none

theorem splitProtocol_eq_ok_iff {raw rest : List Char} {protocol : ProtocolKind}
    {transport : Option Transport} :
    splitProtocol raw = .ok (rest, protocol, transport) ↔
      ('/' ∉ raw ∧ rest = raw ∧ protocol = .both ∧ transport = none) ∨
        ∃ spec, raw = rest ++ '/' :: spec ∧ '/' ∉ spec ∧ Means (lowerParts spec) protocol transport := by
  unfold splitProtocol
  cases hsplit : rsplitOnce '/' raw with
  | none =>
      have habsent : '/' ∉ raw := rsplitOnce_eq_none_iff.1 hsplit
      constructor
      · intro h
        cases h
        exact Or.inl ⟨habsent, rfl, rfl, rfl⟩
      · rintro (⟨-, rfl, rfl, rfl⟩ | ⟨spec, rfl, -, -⟩)
        · rfl
        · exact absurd (List.mem_append_right rest List.mem_cons_self) habsent
  | some pieces =>
      obtain ⟨before, spec⟩ := pieces
      obtain ⟨rfl, hslash⟩ := rsplitOnce_eq_some_iff.1 hsplit
      dsimp only
      constructor
      · intro h
        cases hspec : parseProtocol spec with
        | error e =>
            rw [hspec] at h
            cases h
        | ok meant =>
            rw [hspec] at h
            cases h
            exact Or.inr ⟨spec, rfl, hslash, parseProtocol_eq_ok_iff.1 hspec⟩
      · rintro (⟨habsent, -⟩ | ⟨spec', heq, hslash', hmeans⟩)
        · exact absurd (List.mem_append_right before List.mem_cons_self) habsent
        · -- the last slash is where both splits are
          have hboth := rsplitOnce_eq_some_iff.2 ⟨heq, hslash'⟩
          rw [hsplit] at hboth
          cases hboth
          rw [parseProtocol_eq_ok_iff.2 hmeans]
          rfl

/-- **The flags that are accepted, and the rule each of them gives.** -/
theorem parseMapFlag_eq_ok_iff {raw : String} {r : ForwardRule} :
    parseMapFlag raw = .ok r ↔
      ∃ listen target protocol transport, Reads raw.toList listen target protocol transport
        ∧ r = ruleOf listen target protocol transport := by
  unfold parseMapFlag
  constructor
  · intro h
    split at h
    · cases h
    · rename_i rest protocol transport hprotocol
      split at h
      · cases h
      · rename_i listen target harrow
        cases h
        obtain ⟨hrest, hlisten⟩ := splitArrow_eq_some_iff.1 harrow
        refine ⟨listen, target, protocol, transport, ?_, rfl⟩
        rcases splitProtocol_eq_ok_iff.1 hprotocol with ⟨hslash, hraw, rfl, rfl⟩ | ⟨spec, hraw, hslash, hmeans⟩
        · exact .bare (hraw ▸ hrest) hslash hlisten
        · exact .spec (by rw [hraw, hrest]) hslash hlisten hmeans
  · rintro ⟨listen, target, protocol, transport, hreads, rfl⟩
    have hrest : ∃ rest, splitProtocol raw.toList = .ok (rest, protocol, transport)
        ∧ splitArrow rest = some (listen, target) := by
      cases hreads with
      | bare hraw hslash harrow =>
          exact ⟨raw.toList, splitProtocol_eq_ok_iff.2 (Or.inl ⟨hslash, rfl, rfl, rfl⟩),
            splitArrow_eq_some_iff.2 ⟨hraw, harrow⟩⟩
      | spec hraw hslash harrow hmeans =>
          exact ⟨_, splitProtocol_eq_ok_iff.2 (Or.inr ⟨_, hraw, hslash, hmeans⟩),
            splitArrow_eq_some_iff.2 ⟨rfl, harrow⟩⟩
    obtain ⟨rest, hprotocol, harrow⟩ := hrest
    rw [hprotocol]
    dsimp only
    rw [harrow]
    rfl

/-- Parts that are the same up to their order and case give the same rule. -/
theorem parseMapFlag_perm {rest spec spec' : List Char} {r : ForwardRule} (hslash : '/' ∉ spec)
    (hslash' : '/' ∉ spec') (hperm : (lowerParts spec').Perm (lowerParts spec))
    (h : parseMapFlag (String.ofList (rest ++ '/' :: spec)) = .ok r) :
    parseMapFlag (String.ofList (rest ++ '/' :: spec')) = .ok r := by
  obtain ⟨listen, target, protocol, transport, hreads, rfl⟩ := parseMapFlag_eq_ok_iff.1 h
  refine parseMapFlag_eq_ok_iff.2 ⟨listen, target, protocol, transport, ?_, rfl⟩
  rw [String.toList_ofList] at hreads ⊢
  cases hreads with
  | bare hraw habsent harrow => exact absurd (List.mem_append_right rest List.mem_cons_self) habsent
  | spec hraw hread harrow hmeans =>
      -- both are what stands behind the last slash
      have hsplit := rsplitOnce_append hslash rest
      rw [hraw, rsplitOnce_append hread] at hsplit
      obtain ⟨rfl, rfl⟩ := Prod.mk.inj (Option.some.inj hsplit)
      exact .spec rfl hslash' harrow (hmeans.perm hperm)

/-- A rule that the syntax has a form for. -/
structure Printable (r : ForwardRule) : Prop where
  name : r.name = none
  token : r.token = none
  udpIdleSecs : r.udpIdleSecs = 60
  transport : r.transport = none ∨ r.protocol = .tcp
  listen_port : isU16 r.listen.toList = false
  listen_slash : '/' ∉ r.listen.toList
  listen_arrow : NoArrow r.listen.toList
  listen_trim : trim r.listen.toList = r.listen.toList
  target_slash : '/' ∉ r.target.toList
  target_arrow : NoArrow r.target.toList
  target_trim : trim r.target.toList = r.target.toList

/-- The forms of a rule: the one without a `SPEC` for both protocols, and one for each `SPEC` that stands
for its protocol and transport. -/
inductive Prints (r : ForwardRule) : String → Prop
  | bare (hprotocol : r.protocol = .both) (htransport : r.transport = none) :
      Prints r (r.listen ++ "->" ++ r.target)
  | spec {spec : String} (hslash : '/' ∉ spec.toList)
      (hmeans : Means (lowerParts spec.toList) r.protocol r.transport) :
      Prints r (r.listen ++ "->" ++ r.target ++ "/" ++ spec)

theorem means_word (t : Transport) : Means (lowerParts t.word) .tcp (some t) := by
  have hparts : lowerParts t.word = [t.word] := by
    cases t <;> decide
  rw [hparts]
  exact .secured (List.Perm.refl _) (Or.inl rfl)

/-- Every rule that can be printed has a form. -/
theorem exists_prints {r : ForwardRule} (h : Printable r) : ∃ text, Prints r text := by
  obtain ⟨name, listen, target, protocol, udpIdleSecs, transport, token⟩ := r
  cases transport with
  | none =>
      cases protocol with
      | tcp => exact ⟨_, @Prints.spec _ "tcp" (by decide) .tcp⟩
      | udp => exact ⟨_, @Prints.spec _ "udp" (by decide) .udp⟩
      | both => exact ⟨_, .bare rfl rfl⟩
  | some t =>
      obtain rfl : protocol = .tcp := h.transport.resolve_left (by simp)
      have hslash : '/' ∉ (String.ofList t.word).toList := by
        cases t <;> decide
      refine ⟨_, @Prints.spec _ (String.ofList t.word) hslash ?_⟩
      rw [String.toList_ofList]
      exact means_word t

/-- A rule that is printed is read back. -/
theorem parseMapFlag_of_prints {r : ForwardRule} (h : Printable r) {text : String}
    (hprints : Prints r text) : parseMapFlag text = .ok r := by
  refine parseMapFlag_eq_ok_iff.2
    ⟨r.listen.toList, r.target.toList, r.protocol, r.transport, ?_, ?_⟩
  · cases hprints with
    | bare hprotocol htransport =>
        rw [hprotocol, htransport]
        refine .bare (by simp) ?_ h.listen_arrow
        simp [h.listen_slash, h.target_slash]
    | spec hslash hmeans => exact .spec (by simp) hslash h.listen_arrow hmeans
  · obtain ⟨name, listen, target, protocol, udpIdleSecs, transport, token⟩ := r
    obtain ⟨rfl, rfl, rfl, -, hport, -, -, hlisten, -, -, htarget⟩ := h
    simp only [ruleOf, hlisten, htarget, hport, String.ofList_toList, Bool.false_eq_true, if_false]

/-- **The syntax of `--map`**: the flags that are accepted are those of `Reads`, with a rule made of the
trimmed pieces; a rule with a transport is a TCP rule; the order and the case of the parts of a `SPEC`
do not matter; and a rule without a bare port that has a form is read back from each of its forms. -/
theorem map_flag_syntax :
    (∀ raw r, parseMapFlag raw = .ok r ↔
      ∃ listen target protocol transport, Reads raw.toList listen target protocol transport
        ∧ r = ruleOf listen target protocol transport)
    ∧ (∀ raw r, parseMapFlag raw = .ok r → r.transport ≠ none → r.protocol = .tcp)
    ∧ (∀ rest spec spec' r, '/' ∉ spec → '/' ∉ spec' → (lowerParts spec').Perm (lowerParts spec) →
      parseMapFlag (String.ofList (rest ++ '/' :: spec)) = .ok r →
      parseMapFlag (String.ofList (rest ++ '/' :: spec')) = .ok r)
    ∧ ∀ r, Printable r →
      (∃ text, Prints r text) ∧ ∀ text, Prints r text → parseMapFlag text = .ok r := by
  refine ⟨fun _ _ => parseMapFlag_eq_ok_iff, fun _ _ h hsome => parseMapFlag_tcp h hsome, ?_, ?_⟩
  · intro rest spec spec' r hslash hslash' hperm h
    exact parseMapFlag_perm hslash hslash' hperm h
  · intro r h
    exact ⟨exists_prints h, fun text hprints => parseMapFlag_of_prints h hprints⟩

end Config
end Erbridge
