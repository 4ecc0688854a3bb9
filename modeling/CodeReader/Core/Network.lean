import CodeReader.Text.Lines

/-!
# The address of a client behind proxies

A proxy appends the address of its peer to `X-Forwarded-For`, so what the client wrote there stays to the left.

* `resolveClientIp` — counts in from the right, by the number of proxies that are trusted;
* `Hop`, `forward` — what a chain of proxies makes of the header of a client;
* `resolveClientIp_forward` — **the address is the one that the outermost proxy appended**, whatever the client wrote.
-/

namespace CodeReader

open Text

/-- What is read of a request: the peer of the connection, and the header. -/
structure ForwardedRequest where
  clientHost : Option String
  xForwardedFor : Option String

/-- The entries of the header, trimmed, without the empty ones. -/
def hops (forwardedFor : List Char) : List (List Char) :=
  ((forwardedFor.splitOn ',').map strip).filter (· ≠ [])

def resolveClientIp (request : ForwardedRequest) (trustedProxyCount : Int) : String :=
  let directPeer := request.clientHost.getD "unknown"
  if trustedProxyCount ≤ 0 then directPeer
  else
    match request.xForwardedFor with
    | none => directPeer
    | some forwardedFor =>
      if forwardedFor = "" then directPeer
      else
        let hops := hops forwardedFor.toList
        if hops.length < trustedProxyCount then directPeer
        else ((hops[hops.length - trustedProxyCount.toNat]?).map String.ofList).getD directPeer

/-! ## Proxies -/

/-- A proxy of the chain: the address of its peer, a word without commas, and the blanks it sets before it. -/
structure Hop where
  peer : String
  blanks : List Char
  nonempty : peer ≠ ""
  no_comma : ',' ∉ peer.toList
  solid : ∀ c ∈ peer.toList, isWhitespace c = false
  blank : ∀ c ∈ blanks, isWhitespace c = true

/-- The header that the proxy sends on. -/
def Hop.append (hop : Hop) : Option String → String
  | none => hop.peer
  | some forwardedFor => String.ofList (forwardedFor.toList ++ ',' :: (hop.blanks ++ hop.peer.toList))

/-- The header behind a chain of proxies, the outermost first. -/
def forward (header : Option String) (chain : List Hop) : Option String :=
  chain.foldl (fun header hop => some (hop.append header)) header

/-! ## The entries of a header -/

section Entries

theorem strip_blank_solid {blanks word : List Char} (hblank : ∀ c ∈ blanks, isWhitespace c = true)
    (hsolid : ∀ c ∈ word, isWhitespace c = false) : strip (blanks ++ word) = word := by
  have hstart : (blanks ++ word).dropWhile isWhitespace = word := by
    rw [List.dropWhile_append_of_pos hblank]
    cases word with
    | nil => rfl
    | cons c word => exact List.dropWhile_cons_of_neg (by simp [hsolid c List.mem_cons_self])
  rw [strip, hstart, List.rdropWhile_eq_self_iff]
  intro hne
  rw [hsolid _ (List.getLast_mem hne)]
  decide

theorem comma_solid : isWhitespace ',' = false := by decide

/-- An entry more. -/
theorem hops_append_comma (text rest : List Char) : hops (text ++ ',' :: rest) = hops text ++ hops rest := by
  rw [hops, List.splitOn_append_cons_self, List.map_append, List.filter_append]
  rfl

/-- One address is one entry. -/
theorem hops_peer (hop : Hop) {blanks : List Char} (hblank : ∀ c ∈ blanks, isWhitespace c = true) :
    hops (blanks ++ hop.peer.toList) = [hop.peer.toList] := by
  have hcomma : ',' ∉ blanks ++ hop.peer.toList := by
    intro h
    rcases List.mem_append.mp h with h | h
    · have hwhite := hblank _ h
      rw [comma_solid] at hwhite
      exact absurd hwhite (by decide)
    · exact hop.no_comma h
  have hne : hop.peer.toList ≠ [] := fun h => hop.nonempty (String.toList_eq_nil_iff.mp h)
  rw [hops, List.splitOn_eq_singleton hcomma, List.map_singleton, strip_blank_solid hblank hop.solid]
  exact List.filter_cons_of_pos (by simpa using hne)

def headerHops (header : Option String) : List (List Char) := hops (header.getD "").toList

theorem headerHops_append (hop : Hop) (header : Option String) :
    headerHops (some (hop.append header)) = headerHops header ++ [hop.peer.toList] := by
  cases header with
  | none =>
    have hnone : headerHops none = [] := by decide
    have hone := hops_peer hop (fun _ hc => absurd hc List.not_mem_nil)
    rw [hnone]
    exact hone
  | some forwardedFor =>
    rw [headerHops, Option.getD_some, Hop.append, String.toList_ofList, hops_append_comma, hops_peer hop hop.blank]
    rfl

theorem headerHops_forward (header : Option String) (chain : List Hop) :
    headerHops (forward header chain) = headerHops header ++ chain.map (·.peer.toList) := by
  induction chain generalizing header with
  | nil => simp [forward]
  | cons hop chain ih =>
    rw [forward, List.foldl_cons, ← forward, ih, headerHops_append, List.append_assoc, List.map_cons]
    rfl

end Entries

/-- Too few entries: the peer of the connection, which no header can change. -/
theorem resolveClientIp_short {request : ForwardedRequest} {trustedProxyCount : Int}
    (h : (headerHops request.xForwardedFor).length < trustedProxyCount) :
    resolveClientIp request trustedProxyCount = request.clientHost.getD "unknown" := by
  unfold resolveClientIp
  cases hheader : request.xForwardedFor with
  | none => simp
  | some forwardedFor =>
    rw [hheader] at h
    simp only [headerHops, Option.getD_some] at h
    simp [h]

/-- Enough entries: the one that many from the right. -/
theorem resolveClientIp_of_hops (request : ForwardedRequest) {before after : List (List Char)} {address : List Char}
    (h : headerHops request.xForwardedFor = before ++ address :: after) :
    resolveClientIp request (after.length + 1) = String.ofList address := by
  have hheader : ∃ forwardedFor, request.xForwardedFor = some forwardedFor ∧ forwardedFor ≠ "" := by
    cases hheader : request.xForwardedFor with
    | none =>
      rw [hheader] at h
      exact absurd (congrArg List.length h) (by simp [headerHops, hops, strip])
    | some forwardedFor =>
      refine ⟨forwardedFor, rfl, ?_⟩
      rintro rfl
      rw [hheader] at h
      exact absurd (congrArg List.length h) (by simp [headerHops, hops, strip])
  obtain ⟨forwardedFor, hheader, hne⟩ := hheader
  rw [hheader, headerHops, Option.getD_some] at h
  have hpos : ¬ ((after.length : Int) + 1 ≤ 0) := by omega
  have henough : ¬ (((before ++ address :: after).length : Int) < (after.length : Int) + 1) := by
    rw [List.length_append, List.length_cons]
    omega
  have hplace : (before ++ address :: after).length - ((after.length : Int) + 1).toNat = before.length := by
    rw [List.length_append, List.length_cons]
    omega
  unfold resolveClientIp
  simp only [hheader, h, if_neg hpos, if_neg hne, if_neg henough, hplace]
  simp

/-- **The outermost proxy's word.**  Behind a chain of proxies that are all trusted, and no others, the address is the
one that the outermost of them appended: the header of the client does not matter. -/
theorem resolveClientIp_forward (clientHost header : Option String) (outermost : Hop) (inner : List Hop) :
    resolveClientIp ⟨clientHost, forward header (outermost :: inner)⟩ (inner.length + 1) = outermost.peer := by
  have hentries := headerHops_forward header (outermost :: inner)
  rw [List.map_cons] at hentries
  have haddress := resolveClientIp_of_hops ⟨clientHost, forward header (outermost :: inner)⟩ hentries
  rw [List.length_map] at haddress
  rw [haddress, String.ofList_toList]

end CodeReader
