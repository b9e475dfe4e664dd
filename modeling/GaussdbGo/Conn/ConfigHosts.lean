import Mathlib
import GaussdbGo.Lib.Strconv
import GaussdbGo.Lib.Strings
import GaussdbGo.Lib.Url

/-!
# Connection strings (`config.go`): the hosts and ports of a URL

`parseURLSettings` reads the host of a `gaussdb://` URL as comma-separated
entries. An entry that `isIPOnly` accepts (one with no colon, or an IP
address) is a host; any other is split by `net.SplitHostPort`, and its host
and its port, each where not empty, go to two lists. The lists are joined
into the `host` and `port` settings. `ParseConfig` then splits them again and
gives the `i`-th host the `i`-th port, or the first port past the end of the
ports; the default port `5432` stands where the URL gives none.

An entry without a port adds no port, so the ports after it move up one host.
Before any of this, `url.Parse` rejects a host whose last colon is followed by
anything but digits, as when an entry with a port comes before a last entry
without one.

The model stops at the list of hosts and ports that become `Config.Host`,
`Config.Port` and the fallbacks, one of each host, which is what
`sslmode=disable` (or a Unix socket host) gives. `net.ParseIP` is a
parameter: `parseIP s` says whether it accepts `s`.
-/

namespace GaussdbGo.Conn

open GoStd

/-- The errors of `parsePort`. -/
inductive PortError where
  /-- the error of `strconv.ParseUint` -/
  | parse (e : Strconv.NumError)
  /-- `outside range` -/
  | outsideRange
  deriving DecidableEq, Repr

/-- The errors met on the way from a URL's host to the hosts and ports. -/
inductive HostsError where
  /-- `failed to parse as URL`: `url.Parse` rejects the host -/
  | url (e : Url.Error)
  /-- `failed to parse as URL`: `failed to split host:port in '%s'` -/
  | splitHostPort (host : List UInt8) (e : Net.AddrError)
  /-- `invalid port` -/
  | invalidPort (e : PortError)
  deriving DecidableEq, Repr

/-- `parsePort(s)`. -/
def parsePort (s : List UInt8) : Except PortError UInt16 :=
  match Strconv.parseUintChecked s 16 with
  | .error e => .error (.parse e)
  | .ok port => if port < 1 ∨ 65535 < port then .error .outsideRange else .ok port.toUInt16

/-- `isIPOnly(host)`. -/
def isIPOnly (parseIP : List UInt8 → Bool) (host : List UInt8) : Bool :=
  parseIP (Strings.trim host [91, 93]) || decide (58 ∉ host)

/-- The loop of `parseURLSettings` over the entries of the URL's host, with the
hosts and ports found so far. -/
def splitURLHosts (parseIP : List UInt8 → Bool) (hosts ports : List (List UInt8)) :
    List (List UInt8) → Except HostsError (List (List UInt8) × List (List UInt8))
  | [] => .ok (hosts, ports)
  | host :: rest =>
    if host = [] then splitURLHosts parseIP hosts ports rest
    else if isIPOnly parseIP host then
      splitURLHosts parseIP (hosts ++ [Strings.trim host [91, 93]]) ports rest
    else
      match Net.splitHostPort host with
      | .error e => .error (.splitHostPort host e)
      | .ok (h, p) =>
        splitURLHosts parseIP (if h = [] then hosts else hosts ++ [h])
          (if p = [] then ports else ports ++ [p]) rest

/-- The default port, `"5432"`. -/
def defaultPort : List UInt8 := [53, 52, 51, 50]

/-- The `host` and `port` settings `ParseConfig` reads for a URL whose host is
`urlHost`, with no environment variable for either: the default host and port
stand where the URL gives none. -/
def urlHostPortSettings (parseIP : List UInt8 → Bool) (defaultHost urlHost : List UInt8) :
    Except HostsError (List UInt8 × List UInt8) :=
  match Url.parseHost urlHost with
  | .error e => .error (.url e)
  | .ok host =>
    match splitURLHosts parseIP [] [] (host.splitOn 44) with
    | .error e => .error e
    | .ok (hosts, ports) =>
      .ok (if hosts = [] then defaultHost else [44].intercalate hosts,
        if ports = [] then defaultPort else [44].intercalate ports)

/-- The loop of `ParseConfig` over the hosts, from the `i`-th: each takes the
port of its index, or the first past the end of the ports. -/
def expandHosts (ports : List (List UInt8)) : Nat → List (List UInt8) →
    Except HostsError (List (List UInt8 × UInt16))
  | _, [] => .ok []
  | i, host :: hosts =>
    let portStr := if i < ports.length then ports.getD i [] else ports.getD 0 []
    match parsePort portStr with
    | .error e => .error (.invalidPort e)
    | .ok port =>
      match expandHosts ports (i + 1) hosts with
      | .error e => .error e
      | .ok rest => .ok ((host, port) :: rest)

/-- The hosts and ports of `Config.Host`, `Config.Port` and the fallbacks, in
order, for a URL whose host is `urlHost`. -/
def configHostPorts (parseIP : List UInt8 → Bool) (defaultHost urlHost : List UInt8) :
    Except HostsError (List (List UInt8 × UInt16)) :=
  match urlHostPortSettings parseIP defaultHost urlHost with
  | .error e => .error e
  | .ok (host, port) => expandHosts (port.splitOn 44) 0 (host.splitOn 44)

/-! ## Ports -/

theorem parsePort_natDigits {p : Nat} (h₁ : 0 < p) (h₂ : p < 65536) :
    parsePort (Strconv.natDigits p) = .ok p.toUInt16 := by
  rw [parsePort, Strconv.parseUintChecked_natDigits (show p < 2 ^ 16 by omega)]
  dsimp only
  rw [if_neg (by omega)]

theorem parsePort_defaultPort : parsePort defaultPort = .ok 5432 := by
  decide

/-- The loop over the hosts pairs each with the port its index reads. -/
theorem expandHosts_spec {ports : List (List UInt8)} {g : Nat → UInt16}
    (hport : ∀ k, parsePort (if k < ports.length then ports.getD k [] else ports.getD 0 []) = .ok (g k)) :
    ∀ (hosts : List (List UInt8)) (i : Nat),
      expandHosts ports i hosts = .ok (hosts.mapIdx fun j h => (h, g (i + j)))
  | [], _ => rfl
  | h :: hosts, i => by
    rw [expandHosts]
    rw [hport i, expandHosts_spec hport hosts (i + 1), List.mapIdx_cons]
    simp only [Nat.add_zero, Nat.add_assoc, Nat.add_comm 1]

/-! ## URLs with several hosts

The host of `gaussdb://user@e₁,…,eₙ/db?sslmode=disable` is `e₁,…,eₙ`, each
entry a host name with an optional `:port`. -/

/-- A byte of a host name in an entry: one `url.Parse` takes as it is, and not
`,`, `:`, `[` or `]`. -/
def NameByte (c : UInt8) : Prop := Url.HostByte c ∧ c ≠ 44 ∧ c ≠ 58 ∧ c ≠ 91 ∧ c ≠ 93

instance (c : UInt8) : Decidable (NameByte c) := inferInstanceAs (Decidable (_ ∧ _))

/-- An entry `h` or `h:p`. -/
def renderEntry (e : List UInt8 × Option Nat) : List UInt8 :=
  e.1 ++ match e.2 with
    | none => []
    | some p => 58 :: Strconv.natDigits p

/-- The entries, comma-separated. -/
def renderHosts (es : List (List UInt8 × Option Nat)) : List UInt8 :=
  [44].intercalate (es.map renderEntry)

/-- An entry the rendering carries: a non-empty name of name bytes and a port
in `1..65535`. -/
def EntryValid (e : List UInt8 × Option Nat) : Prop :=
  e.1 ≠ [] ∧ (∀ c ∈ e.1, NameByte c) ∧ ∀ p ∈ e.2, 0 < p ∧ p < 65536

/-- The port `ParseConfig` gives the `i`-th host when the entries gave the ports
`ports`: the `i`-th, the first past the end, or `5432` for none. -/
def portAt (ports : List Nat) (i : Nat) : Nat :=
  if ports = [] then 5432 else if i < ports.length then ports.getD i 0 else ports.getD 0 0

theorem digit_of_decimal {d : UInt8} (h : Strconv.IsDecimalDigit d) : (48 ≤ d && d ≤ 57) = true := by
  simp only [Bool.and_eq_true, decide_eq_true_eq, UInt8.le_iff_toNat_le]
  exact h

theorem hostByte_of_digit {d : UInt8} (h : Strconv.IsDecimalDigit d) : Url.HostByte d := by
  refine ⟨fun h37 => ?_, by simp [Url.shouldEscapeHost, digit_of_decimal h]⟩
  have h₁ := h.1
  rw [h37] at h₁
  exact absurd h₁ (by decide)

/-- A port's digits are host bytes and none of `,`, `:`, `[` or `]`. -/
theorem nameByte_of_digit {d : UInt8} (h : Strconv.IsDecimalDigit d) : NameByte d := by
  refine ⟨hostByte_of_digit h, ?_⟩
  obtain ⟨h₁, h₂⟩ := h
  refine ⟨?_, ?_, ?_, ?_⟩ <;> rintro rfl <;> exact absurd (And.intro h₁ h₂) (by decide)

theorem nameByte_of_mem_natDigits {p : Nat} {d : UInt8} (h : d ∈ Strconv.natDigits p) :
    NameByte d :=
  nameByte_of_digit ((Strconv.natDigits_spec p).2.1 d h)

/-- Every byte of an entry is a host byte, and a colon only before its port. -/
theorem hostByte_of_mem_renderEntry {e : List UInt8 × Option Nat} (he : EntryValid e) {c : UInt8}
    (hc : c ∈ renderEntry e) : Url.HostByte c ∧ c ≠ 44 ∧ c ≠ 91 ∧ c ≠ 93 := by
  unfold renderEntry at hc
  rcases List.mem_append.mp hc with hc | hc
  · obtain ⟨hh, h44, -, h91, h93⟩ := he.2.1 c hc
    exact ⟨hh, h44, h91, h93⟩
  · split at hc
    · exact absurd hc List.not_mem_nil
    · rcases List.mem_cons.mp hc with rfl | hc
      · decide
      · obtain ⟨hh, h44, -, h91, h93⟩ := nameByte_of_mem_natDigits hc
        exact ⟨hh, h44, h91, h93⟩

/-- What holds of the commas and of every entry's bytes holds of the text. -/
theorem forall_mem_renderHosts {P : UInt8 → Prop} (h44 : P 44) :
    ∀ {es : List (List UInt8 × Option Nat)}, (∀ e ∈ es, ∀ c ∈ renderEntry e, P c) →
      ∀ c ∈ renderHosts es, P c
  | [], _ => fun _ hc => nomatch hc
  | [e], he => by
    simpa [renderHosts] using he e (List.mem_singleton_self _)
  | e :: e' :: es, he => by
    intro c hc
    simp only [renderHosts, List.map_cons, List.intercalate_cons_cons] at hc
    rcases List.mem_append.mp hc with hc | hc
    · rcases List.mem_append.mp hc with hc | hc
      · exact he e (List.mem_cons_self ..) c hc
      · rw [List.mem_singleton.mp hc]
        exact h44
    · exact forall_mem_renderHosts h44 (fun x hx => he x (List.mem_cons_of_mem _ hx)) c hc

/-- A list of entries ends in a last one after a comma. -/
theorem renderHosts_append_singleton {init : List (List UInt8 × Option Nat)} (hi : init ≠ [])
    (x : List UInt8 × Option Nat) :
    renderHosts (init ++ [x]) = renderHosts init ++ 44 :: renderEntry x := by
  induction init with
  | nil => exact absurd rfl hi
  | cons a init ih =>
    cases init with
    | nil => simp [renderHosts, List.intercalate_cons_cons]
    | cons b init =>
      have ih' := ih (List.cons_ne_nil _ _)
      simp only [renderHosts, List.cons_append, List.map_cons] at ih' ⊢
      rw [List.intercalate_cons_cons, ih', List.intercalate_cons_cons]
      simp

/-- The bytes of the text of valid entries. -/
theorem hostByte_of_mem_renderHosts {es : List (List UInt8 × Option Nat)} (hv : ∀ e ∈ es, EntryValid e) :
    ∀ c ∈ renderHosts es, Url.HostByte c ∧ c ≠ 91 ∧ c ≠ 93 :=
  forall_mem_renderHosts (by decide) fun e he c hc =>
    have h := hostByte_of_mem_renderEntry (hv e he) hc
    ⟨h.1, h.2.2⟩

/-- Where some entry gives a port, the text splits at its last colon: what
follows is the last port given and, if entries without one come after it, a
comma and their names. -/
theorem renderHosts_last_colon :
    ∀ {es : List (List UInt8 × Option Nat)}, (∀ e ∈ es, EntryValid e) → (∃ e ∈ es, e.2.isSome) →
      ∃ a b, renderHosts es = a ++ 58 :: b ∧ (∀ c ∈ a, Url.HostByte c ∧ c ≠ 91) ∧
        (∀ c ∈ b, Url.HostByte c ∧ c ≠ 58) ∧
        (∀ x ∈ es.getLast?, (∀ p ∈ x.2, b = Strconv.natDigits p) ∧ (x.2 = none → 44 ∈ b)) := by
  intro es
  induction es using List.reverseRecOn with
  | nil => intro _ hex; simp at hex
  | append_singleton init x ih =>
    intro hv hex
    obtain ⟨hne, hname, -⟩ := hv x (by simp)
    have hvi : ∀ e ∈ init, EntryValid e := fun e he => hv e (by simp [he])
    have hlast : (init ++ [x]).getLast? = some x := List.getLast?_concat
    cases hx : x.2 with
    | some p =>
      -- the last entry gives the last port
      have hrx : renderEntry x = x.1 ++ 58 :: Strconv.natDigits p := by simp [renderEntry, hx]
      have hb : ∀ c ∈ Strconv.natDigits p, Url.HostByte c ∧ c ≠ 58 := fun c hc =>
        have h := nameByte_of_mem_natDigits hc
        ⟨h.1, h.2.2.1⟩
      have hxa : ∀ c ∈ x.1, Url.HostByte c ∧ c ≠ 91 := fun c hc =>
        ⟨(hname c hc).1, (hname c hc).2.2.2.1⟩
      rw [hlast]
      by_cases hi : init = []
      · subst hi
        refine ⟨x.1, Strconv.natDigits p, by simp [renderHosts, hrx], hxa, hb, ?_⟩
        intro x' hx'
        cases Option.mem_some_iff.mp hx'
        simp [hx]
      · refine ⟨renderHosts init ++ 44 :: x.1, Strconv.natDigits p, ?_, ?_, hb, ?_⟩
        · rw [renderHosts_append_singleton hi, hrx]
          simp
        · intro c hc
          rcases List.mem_append.mp hc with hc | hc
          · exact ⟨(hostByte_of_mem_renderHosts hvi c hc).1, (hostByte_of_mem_renderHosts hvi c hc).2.1⟩
          · rcases List.mem_cons.mp hc with rfl | hc
            · decide
            · exact hxa c hc
        · intro x' hx'
          cases Option.mem_some_iff.mp hx'
          simp [hx]
    | none =>
      -- the last port is in an earlier entry; this one follows it after a comma
      have hex' : ∃ e ∈ init, e.2.isSome := by
        obtain ⟨e, he, hs⟩ := hex
        rcases List.mem_append.mp he with he | he
        · exact ⟨e, he, hs⟩
        · rw [List.mem_singleton.mp he, hx] at hs
          cases hs
      have hi : init ≠ [] := by
        obtain ⟨e, he, -⟩ := hex'
        exact List.ne_nil_of_mem he
      obtain ⟨a, b, hab, ha, hb, -⟩ := ih hvi hex'
      refine ⟨a, b ++ 44 :: x.1, ?_, ha, ?_, ?_⟩
      · rw [renderHosts_append_singleton hi, hab]
        simp [renderEntry, hx]
      · intro c hc
        rcases List.mem_append.mp hc with hc | hc
        · exact hb c hc
        · rcases List.mem_cons.mp hc with rfl | hc
          · decide
          · exact ⟨(hname c hc).1, (hname c hc).2.2.1⟩
      · rw [hlast]
        intro x' hx'
        cases Option.mem_some_iff.mp hx'
        simp [hx]

/-! ## `url.Parse` on the entries -/

section Parse

variable {es : List (List UInt8 × Option Nat)} (hv : ∀ e ∈ es, EntryValid e)
include hv

/-- With no port at all there is no colon, and the host is taken as it is. -/
theorem parseHost_renderHosts_of_no_port (h : ∀ e ∈ es, e.2 = none) :
    Url.parseHost (renderHosts es) = .ok (renderHosts es) := by
  apply Url.parseHost_of_no_colon
  refine forall_mem_renderHosts (by decide) fun e he c hc => ?_
  simp only [renderEntry, h e he, List.append_nil] at hc
  obtain ⟨hh, -, h58, h91, -⟩ := (hv e he).2.1 c hc
  exact ⟨hh, h91, h58⟩

/-- With a port on the last entry, the host is taken as it is. -/
theorem parseHost_renderHosts_of_last_port (hlast : ∀ x ∈ es.getLast?, x.2.isSome) :
    Url.parseHost (renderHosts es) = .ok (renderHosts es) := by
  cases hl : es.getLast? with
  | none =>
    rw [List.getLast?_eq_none_iff.mp hl]
    decide
  | some x =>
    obtain ⟨a, b, hab, ha, hb, hx⟩ := renderHosts_last_colon hv ⟨x, List.mem_of_getLast? hl, hlast x hl⟩
    obtain ⟨p, hp⟩ := Option.isSome_iff_exists.mp (hlast x hl)
    have hbp : b = Strconv.natDigits p := (hx x hl).1 p hp
    have hvalid : Url.validOptionalPort (58 :: b) = true := by
      rw [hbp]
      exact Url.validOptionalPort_digits fun d hd => digit_of_decimal ((Strconv.natDigits_spec p).2.1 d hd)
    have hhead : a.head? ≠ some 91 := fun h => (ha _ (List.mem_of_mem_head? h)).2 rfl
    rw [hab, Url.parseHost_of_last_colon (fun c hc => (ha c hc).1) hhead hb, if_pos hvalid]

/-- With no port on the last entry but a port before it, what follows the last
colon has a comma in it, and `url.Parse` rejects the port. -/
theorem parseHost_renderHosts_of_port_before (hlast : ∀ x ∈ es.getLast?, x.2 = none)
    (hex : ∃ e ∈ es, e.2.isSome) :
    ∃ colonPort, Url.parseHost (renderHosts es) = .error (.invalidPort colonPort) := by
  obtain ⟨a, b, hab, ha, hb, hx⟩ := renderHosts_last_colon hv hex
  obtain ⟨x, hl⟩ : ∃ x, es.getLast? = some x := by
    obtain ⟨e, he, -⟩ := hex
    exact Option.ne_none_iff_exists'.mp (by simp [List.getLast?_eq_none_iff, List.ne_nil_of_mem he])
  have h44 : 44 ∈ b := (hx x hl).2 (hlast x hl)
  have hvalid : Url.validOptionalPort (58 :: b) = false := Url.validOptionalPort_of_mem h44 (by decide)
  have hhead : a.head? ≠ some 91 := fun h => (ha _ (List.mem_of_mem_head? h)).2 rfl
  refine ⟨58 :: b, ?_⟩
  rw [hab, Url.parseHost_of_last_colon (fun c hc => (ha c hc).1) hhead hb, if_neg (by simp [hvalid])]

end Parse

/-! ## `parseURLSettings` and `ParseConfig` on the entries -/

section Settings

variable {parseIP : List UInt8 → Bool} (hip : ∀ s : List UInt8, s.count 58 = 1 → parseIP s = false)
include hip

/-- One entry: its name is a host, and its port, if any, a port. -/
theorem splitURLHosts_renderEntry {e : List UInt8 × Option Nat} (he : EntryValid e)
    (hosts ports rest : List (List UInt8)) :
    splitURLHosts parseIP hosts ports (renderEntry e :: rest) =
      splitURLHosts parseIP (hosts ++ [e.1]) (ports ++ (e.2.map Strconv.natDigits).toList) rest := by
  obtain ⟨hne, hname, hport⟩ := he
  have hbr : ∀ c ∈ e.1, c ∉ [91, 93] := fun c hc => by
    obtain ⟨-, -, -, h91, h93⟩ := hname c hc
    simp [h91, h93]
  have hrender : renderEntry e ≠ [] := by simp [renderEntry, hne]
  rw [splitURLHosts, if_neg hrender]
  cases hx : e.2 with
  | none =>
    -- no colon: a host
    have hr : renderEntry e = e.1 := by simp [renderEntry, hx]
    have hip' : isIPOnly parseIP (renderEntry e) = true := by
      simp only [isIPOnly, hr, Bool.or_eq_true, decide_eq_true_eq]
      exact .inr fun h => (hname 58 h).2.2.1 rfl
    rw [if_pos hip', hr, Strings.trim_of_forall_not_mem hbr]
    simp
  | some p =>
    -- one colon: not an IP address, so split into host and port
    have hr : renderEntry e = e.1 ++ 58 :: Strconv.natDigits p := by simp [renderEntry, hx]
    obtain ⟨hdne, hdig, -⟩ := Strconv.natDigits_spec p
    have hd : ∀ c ∈ Strconv.natDigits p, c ≠ 58 ∧ c ≠ 91 ∧ c ≠ 93 := fun c hc => by
      obtain ⟨-, -, h58, h91, h93⟩ := nameByte_of_digit (hdig c hc)
      exact ⟨h58, h91, h93⟩
    have hh : ∀ c ∈ e.1, c ≠ 58 ∧ c ≠ 91 ∧ c ≠ 93 := fun c hc => by
      obtain ⟨-, -, h58, h91, h93⟩ := hname c hc
      exact ⟨h58, h91, h93⟩
    have htrim : Strings.trim (e.1 ++ 58 :: Strconv.natDigits p) [91, 93] = e.1 ++ 58 :: Strconv.natDigits p := by
      refine Strings.trim_of_forall_not_mem fun c hc => ?_
      rcases List.mem_append.mp hc with hc | hc
      · exact hbr c hc
      · rcases List.mem_cons.mp hc with rfl | hc
        · decide
        · simp [(hd c hc).2.1, (hd c hc).2.2]
    have hcount : (e.1 ++ 58 :: Strconv.natDigits p).count 58 = 1 := by
      rw [List.count_append, List.count_cons_self, List.count_eq_zero.mpr fun h => (hh 58 h).1 rfl,
        List.count_eq_zero.mpr fun h => (hd 58 h).1 rfl]
    have hip' : isIPOnly parseIP (renderEntry e) = false := by
      simp only [isIPOnly, hr, htrim, hip _ hcount, Bool.false_or, decide_eq_false_iff_not, not_not]
      simp
    rw [if_neg (by simp [hip']), hr, Net.splitHostPort_append hh hd]
    simp only [if_neg hne, if_neg hdne]
    rfl

/-- The entries give their names as the hosts and their ports, in order, as
the ports. -/
theorem splitURLHosts_renderEntries :
    ∀ {es : List (List UInt8 × Option Nat)}, (∀ e ∈ es, EntryValid e) → ∀ hosts ports,
      splitURLHosts parseIP hosts ports (es.map renderEntry) =
        .ok (hosts ++ es.map Prod.fst, ports ++ (es.filterMap Prod.snd).map Strconv.natDigits)
  | [], _, hosts, ports => by simp [splitURLHosts]
  | e :: es, hv, hosts, ports => by
    rw [List.map_cons, splitURLHosts_renderEntry hip (hv e (List.mem_cons_self ..)),
      splitURLHosts_renderEntries (fun x hx => hv x (List.mem_cons_of_mem _ hx))]
    cases hx : e.2 <;> simp [hx]

/-- Where `url.Parse` takes the host, the settings are the names joined, and
the ports given joined, or the default port. -/
theorem urlHostPortSettings_renderHosts (defaultHost : List UInt8)
    {es : List (List UInt8 × Option Nat)} (hne : es ≠ []) (hv : ∀ e ∈ es, EntryValid e)
    (hparse : Url.parseHost (renderHosts es) = .ok (renderHosts es)) :
    urlHostPortSettings parseIP defaultHost (renderHosts es) =
      .ok ([44].intercalate (es.map Prod.fst),
        if es.filterMap Prod.snd = [] then defaultPort
        else [44].intercalate ((es.filterMap Prod.snd).map Strconv.natDigits)) := by
  have hsplit : (renderHosts es).splitOn 44 = es.map renderEntry := by
    refine List.splitOn_intercalate 44 (fun l hl => ?_) (by simpa using hne)
    obtain ⟨e, he, rfl⟩ := List.mem_map.mp hl
    exact fun h => (hostByte_of_mem_renderEntry (hv e he) h).2.1 rfl
  rw [urlHostPortSettings, hparse]
  dsimp only
  rw [hsplit, splitURLHosts_renderEntries hip hv]
  simp only [List.nil_append, List.map_eq_nil_iff, hne, if_false]

end Settings

/-! ## The hosts and their ports -/

/-- With ports given, the one a host takes is one of them. -/
theorem portAt_mem {ports : List Nat} (h : ports ≠ []) (i : Nat) : portAt ports i ∈ ports := by
  have h0 : 0 < ports.length := List.length_pos_iff.mpr h
  unfold portAt
  rw [if_neg h]
  split
  · rename_i hi
    rw [List.getD_eq_getElem _ _ hi]
    exact List.getElem_mem hi
  · rw [List.getD_eq_getElem _ _ h0]
    exact List.getElem_mem h0

/-- The port text `ParseConfig` reads for the `i`-th host. -/
theorem portStr_eq {ports : List Nat} (i : Nat) :
    (if i < (if ports = [] then [defaultPort] else ports.map Strconv.natDigits).length
      then (if ports = [] then [defaultPort] else ports.map Strconv.natDigits).getD i []
      else (if ports = [] then [defaultPort] else ports.map Strconv.natDigits).getD 0 []) =
      if ports = [] then defaultPort else Strconv.natDigits (portAt ports i) := by
  by_cases h : ports = []
  · simp only [h, if_true, List.length_singleton]
    split
    · rename_i hi
      obtain rfl : i = 0 := by omega
      rfl
    · rfl
  · have h0 : 0 < ports.length := List.length_pos_iff.mpr h
    simp only [h, if_false, List.length_map, portAt]
    split
    · rename_i hi
      rw [List.getD_eq_getElem _ _ (by simpa using hi), List.getElem_map, List.getD_eq_getElem _ _ hi]
    · rw [List.getD_eq_getElem _ _ (by simpa using h0), List.getElem_map, List.getD_eq_getElem _ _ h0]

theorem configHostPorts_renderHosts (parseIP : List UInt8 → Bool)
    (hip : ∀ s : List UInt8, s.count 58 = 1 → parseIP s = false) (defaultHost : List UInt8)
    (es : List (List UInt8 × Option Nat)) (hne : es ≠ []) (hv : ∀ e ∈ es, EntryValid e) :
    ((∀ x ∈ es.getLast?, x.2.isSome) ∨ (∀ e ∈ es, e.2 = none) →
      configHostPorts parseIP defaultHost (renderHosts es) =
        .ok ((es.map Prod.fst).mapIdx fun i h => (h, (portAt (es.filterMap Prod.snd) i).toUInt16))) ∧
      ((∀ x ∈ es.getLast?, x.2 = none) → (∃ e ∈ es, e.2.isSome) →
        ∃ colonPort, configHostPorts parseIP defaultHost (renderHosts es) =
          .error (.url (.invalidPort colonPort))) := by
  constructor
  · intro hok
    have hparse : Url.parseHost (renderHosts es) = .ok (renderHosts es) := by
      rcases hok with h | h
      · exact parseHost_renderHosts_of_last_port hv h
      · exact parseHost_renderHosts_of_no_port hv h
    -- the names and the port texts have no comma, so the settings split back
    have hhosts : ([44].intercalate (es.map Prod.fst)).splitOn 44 = es.map Prod.fst := by
      refine List.splitOn_intercalate 44 (fun l hl => ?_) (by simpa using hne)
      obtain ⟨e, he, rfl⟩ := List.mem_map.mp hl
      exact fun h => ((hv e he).2.1 44 h).2.1 rfl
    have hports : (if es.filterMap Prod.snd = [] then defaultPort
        else [44].intercalate ((es.filterMap Prod.snd).map Strconv.natDigits)).splitOn 44 =
        if es.filterMap Prod.snd = [] then [defaultPort]
        else (es.filterMap Prod.snd).map Strconv.natDigits := by
      split
      · rfl
      · rename_i hg
        refine List.splitOn_intercalate 44 (fun l hl => ?_) (by simpa using hg)
        obtain ⟨p, -, rfl⟩ := List.mem_map.mp hl
        exact fun h => (nameByte_of_mem_natDigits h).2.1 rfl
    -- each host's port text reads as the port `portAt` gives it
    have hport : ∀ k, parsePort (if k < (if es.filterMap Prod.snd = [] then [defaultPort]
          else (es.filterMap Prod.snd).map Strconv.natDigits).length
        then (if es.filterMap Prod.snd = [] then [defaultPort]
          else (es.filterMap Prod.snd).map Strconv.natDigits).getD k []
        else (if es.filterMap Prod.snd = [] then [defaultPort]
          else (es.filterMap Prod.snd).map Strconv.natDigits).getD 0 []) =
        .ok (portAt (es.filterMap Prod.snd) k).toUInt16 := by
      intro k
      rw [portStr_eq]
      split
      · rename_i hg
        rw [parsePort_defaultPort, portAt, if_pos hg]
        rfl
      · rename_i hg
        obtain ⟨e, he, hep⟩ := List.mem_filterMap.mp (portAt_mem hg k)
        obtain ⟨h₁, h₂⟩ := (hv e he).2.2 _ hep
        exact parsePort_natDigits h₁ h₂
    rw [configHostPorts, urlHostPortSettings_renderHosts hip defaultHost hne hv hparse]
    dsimp only
    rw [hhosts, hports, expandHosts_spec hport]
    simp only [Nat.zero_add]
  · intro hlast hex
    obtain ⟨colonPort, hcp⟩ := parseHost_renderHosts_of_port_before hv hlast hex
    exact ⟨colonPort, by rw [configHostPorts, urlHostPortSettings, hcp]⟩

theorem configHostPorts_renderHosts_shifted_port :
    renderHosts [([97], none), ([98], some 2)] = [97, 44, 98, 58, 50] ∧
      configHostPorts (fun _ => false) [] (renderHosts [([97], none), ([98], some 2)]) =
        .ok [([97], 2), ([98], 2)] := by
  refine ⟨by decide, ?_⟩
  have hv : ∀ e ∈ [(([97] : List UInt8), (none : Option Nat)), ([98], some 2)], EntryValid e := by
    intro e he
    simp only [List.mem_cons, List.not_mem_nil, or_false] at he
    rcases he with rfl | rfl
    · exact ⟨by decide, fun c hc => by rw [List.mem_singleton.mp hc]; decide, by simp⟩
    · exact ⟨by decide, fun c hc => by rw [List.mem_singleton.mp hc]; decide, by simp⟩
  rw [(configHostPorts_renderHosts (fun _ => false) (fun _ _ => rfl) [] _ (by simp) hv).1
    (.inl (by simp))]
  decide

end GaussdbGo.Conn
