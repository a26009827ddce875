import RecordSchema.Catalog.Build

/-!
# The libvirt catalog

The four kinds of resources of libvirt (domains, networks, storage pools and storage volumes) and
the records they are made of.
-/

namespace RecordSchema.Catalog.Libvirt

open FieldDecl TypeExpr

def record (name : String) (fields : List FieldDecl) : RecordDecl :=
  { name, package := "libvirtxml", fields }

/-- A record that is the root of documents. -/
def rootRecord (name element : String) (fields : List FieldDecl) : RecordDecl :=
  { record name fields with element := some element }

def domainRecords : List RecordDecl :=
  [rootRecord "Domain" "domain"
     [oneOf ["kvm", "qemu", "xen", "lxc"] (inAttribute "Type" .string "type"),
      (inAttribute "ID" (.optional (.scalar .int)) "id").orEmpty,
      (inElement "Name" .string "name").orEmpty,
      (inElement "UUID" .string "uuid").orEmpty,
      (inElement "Title" .string "title").orEmpty,
      (inElement "Description" .string "description").orEmpty,
      inElement "Memory" (maybe "DomainMemory") "memory",
      inElement "CurrentMemory" (maybe "DomainCurrentMemory") "currentMemory",
      inElement "VCPU" (maybe "DomainVCPU") "vcpu",
      inElement "OS" (maybe "DomainOS") "os",
      inElement "Features" (maybe "DomainFeatureList") "features",
      oneOf ["destroy", "restart", "preserve", "rename-restart"]
        ((inElement "OnPoweroff" .string "on_poweroff").orEmpty),
      (inElement "OnReboot" .string "on_reboot").orEmpty,
      (inElement "OnCrash" .string "on_crash").orEmpty,
      inElement "Devices" (maybe "DomainDeviceList") "devices",
      inElement "SecLabel" (many "DomainSecLabel") "seclabel"],
   record "DomainMemory"
     [inText "Value" (.scalar .uint),
      oneOf ["b", "KiB", "MiB", "GiB"] ((inAttribute "Unit" .string "unit").orEmpty),
      oneOf ["on", "off"] ((inAttribute "DumpCore" .string "dumpCore").orEmpty)],
   record "DomainCurrentMemory"
     [inText "Value" (.scalar .uint),
      (inAttribute "Unit" .string "unit").orEmpty],
   record "DomainVCPU"
     [oneOf ["static", "auto"] ((inAttribute "Placement" .string "placement").orEmpty),
      (inAttribute "CPUSet" .string "cpuset").orEmpty,
      (inAttribute "Current" (.scalar .uint) "current").orEmpty,
      inText "Value" (.scalar .uint)],
   record "DomainOS"
     [inElement "Type" (maybe "DomainOSType") "type",
      inElement "Loader" (maybe "DomainLoader") "loader",
      inElement "BootDevices" (many "DomainBootDevice") "boot",
      (inElement "Kernel" .string "kernel").orEmpty,
      (inElement "Initrd" .string "initrd").orEmpty,
      (inElement "Cmdline" .string "cmdline").orEmpty],
   record "DomainOSType"
     [(inAttribute "Arch" .string "arch").orEmpty,
      (inAttribute "Machine" .string "machine").orEmpty,
      inText "Type" .string],
   record "DomainLoader"
     [inText "Path" .string,
      oneOf ["yes", "no"] ((inAttribute "Readonly" .string "readonly").orEmpty),
      (inAttribute "Secure" .string "secure").orEmpty,
      (inAttribute "Type" .string "type").orEmpty],
   record "DomainBootDevice"
     [oneOf ["fd", "hd", "cdrom", "network"] (inAttribute "Dev" .string "dev")],
   record "DomainFeatureList"
     [inElement "PAE" (maybe "DomainFeature") "pae",
      inElement "ACPI" (maybe "DomainFeature") "acpi",
      inElement "APIC" (maybe "DomainFeatureAPIC") "apic",
      inElement "HAP" (maybe "DomainFeatureState") "hap",
      inElement "PrivNet" (maybe "DomainFeature") "privnet"],
   record "DomainFeature" [],
   record "DomainFeatureAPIC"
     [oneOf ["on", "off"] ((inAttribute "EOI" .string "eoi").orEmpty)],
   record "DomainFeatureState"
     [(inAttribute "State" .string "state").orEmpty],
   record "DomainDeviceList"
     [(inElement "Emulator" .string "emulator").orEmpty,
      inElement "Disks" (many "DomainDisk") "disk",
      inElement "Interfaces" (many "DomainInterface") "interface",
      inElement "Graphics" (many "DomainGraphic") "graphics"],
   record "DomainDisk"
     [oneOf ["disk", "cdrom", "floppy", "lun"] ((inAttribute "Device" .string "device").orEmpty),
      inElement "Driver" (maybe "DomainDiskDriver") "driver",
      inElement "Source" (maybe "DomainDiskSource") "source",
      inElement "BackingStore" (maybe "DomainDiskBackingStore") "backingStore",
      inElement "Target" (maybe "DomainDiskTarget") "target",
      inElement "ReadOnly" (maybe "DomainDiskReadOnly") "readonly",
      inElement "Shareable" (maybe "DomainDiskShareable") "shareable",
      (inElement "Serial" .string "serial").orEmpty],
   record "DomainDiskDriver"
     [(inAttribute "Name" .string "name").orEmpty,
      (inAttribute "Type" .string "type").orEmpty,
      oneOf ["default", "none", "writethrough", "writeback", "directsync", "unsafe"]
        ((inAttribute "Cache" .string "cache").orEmpty)],
   record "DomainDiskSource"
     [(inAttribute "File" .string "file").orEmpty,
      (inAttribute "Dev" .string "dev").orEmpty,
      (inAttribute "Index" (.scalar .uint) "index").orEmpty,
      .embed (.named "DomainDiskSourceStartup"),
      inElement "DataStore" (maybe "DomainDiskDataStore") "dataStore"],
   record "DomainDiskSourceStartup"
     [oneOf ["mandatory", "requisite", "optional"]
        ((inAttribute "StartupPolicy" .string "startupPolicy").orEmpty)],
   record "DomainDiskDataStore"
     [inElement "Format" (maybe "DomainDiskFormat") "format",
      inElement "Source" (maybe "DomainDiskSource") "source"],
   record "DomainDiskBackingStore"
     [(inAttribute "Index" (.scalar .uint) "index").orEmpty,
      inElement "Format" (maybe "DomainDiskFormat") "format",
      inElement "Source" (maybe "DomainDiskSource") "source",
      inElement "BackingStore" (maybe "DomainDiskBackingStore") "backingStore"],
   record "DomainDiskFormat"
     [inAttribute "Type" .string "type"],
   record "DomainDiskTarget"
     [inAttribute "Dev" .string "dev",
      oneOf ["ide", "scsi", "virtio", "usb", "sata"] ((inAttribute "Bus" .string "bus").orEmpty)],
   record "DomainDiskReadOnly" [],
   record "DomainDiskShareable" [],
   record "DomainInterface"
     [oneOf ["yes", "no"] ((inAttribute "Managed" .string "managed").orEmpty),
      inElement "MAC" (maybe "DomainInterfaceMAC") "mac",
      inElement "Source" (maybe "DomainInterfaceSource") "source",
      inElement "Model" (maybe "DomainInterfaceModel") "model"],
   record "DomainInterfaceMAC"
     [inAttribute "Address" .string "address"],
   record "DomainInterfaceSource"
     [(inAttribute "Network" .string "network").orEmpty,
      (inAttribute "Bridge" .string "bridge").orEmpty],
   record "DomainInterfaceModel"
     [inAttribute "Type" .string "type"],
   record "DomainGraphic"
     [oneOf ["vnc", "spice", "sdl"] (inAttribute "Type" .string "type"),
      (inAttribute "Port" (.scalar .int) "port").orEmpty,
      oneOf ["yes", "no"] ((inAttribute "AutoPort" .string "autoport").orEmpty),
      (inAttribute "Listen" .string "listen").orEmpty,
      (inAttribute "Passwd" .string "passwd").orEmpty],
   record "DomainSecLabel"
     [(inAttribute "Type" .string "type").orEmpty,
      (inAttribute "Model" .string "model").orEmpty,
      (inAttribute "Relabel" .string "relabel").orEmpty,
      (inElement "Label" .string "label").orEmpty,
      (inElement "ImageLabel" .string "imagelabel").orEmpty]]

def networkRecords : List RecordDecl :=
  [rootRecord "Network" "network"
     [oneOf ["yes", "no"] ((inAttribute "IPv6" .string "ipv6").orEmpty),
      (inAttribute "TrustGuestRxFilters" .string "trustGuestRxFilters").orEmpty,
      (inElement "Name" .string "name").orEmpty,
      (inElement "UUID" .string "uuid").orEmpty,
      inElement "Forward" (maybe "NetworkForward") "forward",
      inElement "Bridge" (maybe "NetworkBridge") "bridge",
      inElement "MAC" (maybe "NetworkMAC") "mac",
      inElement "Domain" (maybe "NetworkDomain") "domain",
      inElement "MTU" (maybe "NetworkMTU") "mtu",
      inElement "IPs" (many "NetworkIP") "ip",
      inElement "Routes" (many "NetworkRoute") "route"],
   record "NetworkForward"
     [oneOf ["nat", "route", "open", "bridge"] ((inAttribute "Mode" .string "mode").orEmpty),
      (inAttribute "Dev" .string "dev").orEmpty,
      inElement "NAT" (maybe "NetworkForwardNAT") "nat",
      inElement "Interfaces" (many "NetworkForwardInterface") "interface"],
   record "NetworkForwardNAT"
     [inElement "Addresses" (many "NetworkForwardNATRange") "address",
      inElement "Ports" (many "NetworkForwardNATPort") "port"],
   record "NetworkForwardNATRange"
     [inAttribute "Start" .string "start",
      inAttribute "End" .string "end"],
   record "NetworkForwardNATPort"
     [inAttribute "Start" (.scalar .uint) "start",
      inAttribute "End" (.scalar .uint) "end"],
   record "NetworkForwardInterface"
     [(inAttribute "Dev" .string "dev").orEmpty],
   record "NetworkBridge"
     [(inAttribute "Name" .string "name").orEmpty,
      oneOf ["on", "off"] ((inAttribute "STP" .string "stp").orEmpty),
      (inAttribute "Delay" .string "delay").orEmpty],
   record "NetworkMAC"
     [(inAttribute "Address" .string "address").orEmpty],
   record "NetworkDomain"
     [(inAttribute "Name" .string "name").orEmpty,
      (inAttribute "LocalOnly" .string "localOnly").orEmpty],
   record "NetworkMTU"
     [inAttribute "Size" (.scalar .uint) "size"],
   record "NetworkIP"
     [(inAttribute "Address" .string "address").orEmpty,
      oneOf ["ipv4", "ipv6"] ((inAttribute "Family" .string "family").orEmpty),
      (inAttribute "Netmask" .string "netmask").orEmpty,
      (inAttribute "Prefix" (.scalar .uint) "prefix").orEmpty,
      inElement "DHCP" (maybe "NetworkDHCP") "dhcp"],
   record "NetworkDHCP"
     [inElement "Ranges" (many "NetworkDHCPRange") "range",
      inElement "Hosts" (many "NetworkDHCPHost") "host"],
   record "NetworkDHCPRange"
     [(inAttribute "Start" .string "start").orEmpty,
      (inAttribute "End" .string "end").orEmpty,
      inElement "Lease" (maybe "NetworkDHCPLease") "lease"],
   record "NetworkDHCPLease"
     [inAttribute "Expiry" (.scalar .uint) "expiry",
      (inAttribute "Unit" .string "unit").orEmpty],
   record "NetworkDHCPHost"
     [(inAttribute "MAC" .string "mac").orEmpty,
      (inAttribute "Name" .string "name").orEmpty,
      (inAttribute "IP" .string "ip").orEmpty],
   record "NetworkRoute"
     [(inAttribute "Family" .string "family").orEmpty,
      (inAttribute "Address" .string "address").orEmpty,
      (inAttribute "Prefix" (.scalar .uint) "prefix").orEmpty,
      (inAttribute "Gateway" .string "gateway").orEmpty]]

def storagePoolRecords : List RecordDecl :=
  [rootRecord "StoragePool" "pool"
     [oneOf ["dir", "fs", "netfs", "logical", "disk", "iscsi"]
        (inAttribute "Type" .string "type"),
      (inElement "Name" .string "name").orEmpty,
      (inElement "UUID" .string "uuid").orEmpty,
      inElement "Allocation" (maybe "StoragePoolSize") "allocation",
      inElement "Capacity" (maybe "StoragePoolSize") "capacity",
      inElement "Available" (maybe "StoragePoolSize") "available",
      inElement "Features" (maybe "StoragePoolFeatures") "features",
      inElement "Source" (maybe "StoragePoolSource") "source",
      inElement "Target" (maybe "StoragePoolTarget") "target"],
   record "StoragePoolSize"
     [(inAttribute "Unit" .string "unit").orEmpty,
      inText "Value" (.scalar .uint64)],
   record "StoragePoolFeatures"
     [inElement "COW" (maybe "StoragePoolFeatureCOW") "cow"],
   record "StoragePoolFeatureCOW"
     [inAttribute "State" .string "state"],
   record "StoragePoolSource"
     [(inElement "Name" .string "name").orEmpty,
      inElement "Host" (many "StoragePoolSourceHost") "host",
      inElement "Device" (many "StoragePoolSourceDevice") "device",
      inElement "Dir" (maybe "StoragePoolSourceDir") "dir",
      inElement "Format" (maybe "StoragePoolSourceFormat") "format"],
   record "StoragePoolSourceHost"
     [inAttribute "Name" .string "name",
      (inAttribute "Port" .string "port").orEmpty],
   record "StoragePoolSourceDevice"
     [inAttribute "Path" .string "path"],
   record "StoragePoolSourceDir"
     [inAttribute "Path" .string "path"],
   record "StoragePoolSourceFormat"
     [inAttribute "Type" .string "type"],
   record "StoragePoolTarget"
     [(inElement "Path" .string "path").orEmpty,
      inElement "Permissions" (maybe "StoragePoolTargetPermissions") "permissions"],
   record "StoragePoolTargetPermissions"
     [(inElement "Owner" .string "owner").orEmpty,
      (inElement "Group" .string "group").orEmpty,
      (inElement "Mode" .string "mode").orEmpty,
      (inElement "Label" .string "label").orEmpty]]

def storageVolumeRecords : List RecordDecl :=
  [rootRecord "StorageVolume" "volume"
     [oneOf ["file", "block", "dir", "network"] ((inAttribute "Type" .string "type").orEmpty),
      inElement "Name" .string "name",
      (inElement "Key" .string "key").orEmpty,
      inElement "Allocation" (maybe "StorageVolumeSize") "allocation",
      inElement "Capacity" (maybe "StorageVolumeSize") "capacity",
      inElement "Physical" (maybe "StorageVolumeSize") "physical",
      inElement "Target" (maybe "StorageVolumeTarget") "target",
      inElement "BackingStore" (maybe "StorageVolumeBackingStore") "backingStore"],
   record "StorageVolumeSize"
     [(inAttribute "Unit" .string "unit").orEmpty,
      inText "Value" (.scalar .uint64)],
   record "StorageVolumeTarget"
     [(inElement "Path" .string "path").orEmpty,
      inElement "Format" (maybe "StorageVolumeTargetFormat") "format",
      inElement "Permissions" (maybe "StorageVolumeTargetPermissions") "permissions",
      (inElement "Compat" .string "compat").orEmpty,
      inElement "NoCOW" (maybe "StorageVolumeTargetNoCOW") "nocow"],
   record "StorageVolumeTargetFormat"
     [inAttribute "Type" .string "type"],
   record "StorageVolumeTargetPermissions"
     [(inElement "Owner" .string "owner").orEmpty,
      (inElement "Group" .string "group").orEmpty,
      (inElement "Mode" .string "mode").orEmpty,
      (inElement "Label" .string "label").orEmpty],
   record "StorageVolumeTargetNoCOW" [],
   record "StorageVolumeBackingStore"
     [(inElement "Path" .string "path").orEmpty,
      inElement "Format" (maybe "StorageVolumeTargetFormat") "format",
      inElement "Permissions" (maybe "StorageVolumeTargetPermissions") "permissions"]]

end Libvirt

/-- The records of libvirt, each kind of resource before the records it is made of. -/
def libvirt : Catalog :=
  .ofRecords "libvirtxml"
    (Libvirt.domainRecords ++ Libvirt.networkRecords ++ Libvirt.storagePoolRecords ++
      Libvirt.storageVolumeRecords)

end RecordSchema.Catalog
