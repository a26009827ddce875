import RecordSchema.Text.LetterCase

/-!
# Snake case

Declared names are written in camel case, output names in snake case.  A name that is a known
acronym, or the plural of one, folds as a single word; any other name is lower-cased and gets an
underscore where a new word starts.
-/

namespace RecordSchema.Text

/-- The acronyms that fold as one word, with their folded spelling. -/
def acronyms : List (String × String) :=
  [("IPs", "ips"), ("IPv6", "ipv6"), ("IPv4", "ipv4"), ("DNS", "dns"), ("DHCP", "dhcp"),
   ("MAC", "mac"), ("UUID", "uuid"), ("XML", "xml"), ("HTTP", "http"), ("HTTPS", "https"),
   ("API", "api"), ("URI", "uri"), ("URL", "url"), ("VLAN", "vlan"), ("MTU", "mtu"),
   ("TFTP", "tftp"), ("NFS", "nfs"), ("SCSI", "scsi"), ("SATA", "sata"), ("IDE", "ide"),
   ("USB", "usb"), ("PCI", "pci"), ("VNC", "vnc"), ("RDP", "rdp"), ("VGA", "vga"),
   ("CPU", "cpu"), ("VCPU", "vcpu"), ("RAM", "ram"), ("ROM", "rom"), ("BIOS", "bios"),
   ("UEFI", "uefi"), ("TPM", "tpm"), ("RNG", "rng"), ("WWN", "wwn")]

def acronym? (s : List Char) : Option (List Char) :=
  (acronyms.find? fun a => a.1.toList == s).map fun a => a.2.toList

/-- What stands before a final `s`. -/
def pluralStem? (s : List Char) : Option (List Char) :=
  if s.getLast? = some 's' then some s.dropLast else none

/-- Whether `c` starts a new word after `prev`: at a step from a small letter to a capital, or at
the last capital of a run when a small letter follows, except as the second character of a name. -/
def startsWord (second : Bool) (prev c : Char) (next : Option Char) : Bool :=
  isUpper c && (isLower prev || (isUpper prev && next.any isLower && !second))

def foldAfter (second : Bool) (prev : Char) : List Char → List Char
  | [] => []
  | c :: rest =>
    (if startsWord second prev c rest.head? then ['_'] else []) ++
      (lower c ++ foldAfter false c rest)

def foldWords : List Char → List Char
  | [] => []
  | c :: rest => lower c ++ foldAfter true c rest

def foldName (s : List Char) : List Char :=
  match (pluralStem? s).bind acronym? with
  | some folded => folded ++ ['s']
  | none => (acronym? s).getD (foldWords s)

/-- The output name for a declared name. -/
def snakeCase (s : String) : String := String.ofList (foldName s.toList)

end RecordSchema.Text
