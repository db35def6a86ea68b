import PuttyNd.Lib.Blocks
import PuttyNd.Lib.CInt
import PuttyNd.Lib.Codec
import PuttyNd.Lib.Machine
import PuttyNd.Lib.Runs
import PuttyNd.Adb.Proofs.AdbProofs
import PuttyNd.Terminal.Proofs.ScrollbackProofs
import PuttyNd.Zmodem.Proofs.HeaderProofs
import PuttyNd.Zmodem.Proofs.SafetyProofs
import PuttyNd.Zmodem.Proofs.InterleavingProofs
import PuttyNd.Psftp.Proofs.ConfProofs
import PuttyNd.Psftp.Proofs.WildcardProofs
import PuttyNd.Psftp.Wildcard
import PuttyNd.Psftp.Proofs.WildcardPlProofs
import PuttyNd.Tree.Proofs.RefinementProofs
import PuttyNd.Storage.Proofs.HostKeysProofs
import PuttyNd.Storage.Proofs.TmplStoreProofs
import PuttyNd.Mpint.Proofs.MultiplyProofs
import PuttyNd.Mpint.Proofs.MarshalProofs
import PuttyNd.Mpint.Proofs.MontyProofs
import PuttyNd.Mpint.Proofs.DivideProofs
import PuttyNd.Mpint.Bezout
import PuttyNd.Mpint.Proofs.IntegersProofs
import PuttyNd.Mpint.Decimal
import PuttyNd.Mpint.Proofs.DigitProofs
import PuttyNd.Mpint.Proofs.DecimalLimitProofs
import PuttyNd.Mpint.Proofs.ToDecimalProofs
import PuttyNd.Lib.SquareRoots
import PuttyNd.Mpint.Modular
import PuttyNd.Mpint.Proofs.ModsqrtProofs
import PuttyNd.Lib.BinaryEuclid
import PuttyNd.Mpint.Proofs.BezoutProofs
import PuttyNd.Ssh.Proofs.RportfwdProofs
import PuttyNd.Lib.Index
import PuttyNd.Share.Connstate
import PuttyNd.Share.Downstream
import PuttyNd.Share.Proofs.FrameProofs
import PuttyNd.Share.Proofs.ChannelsProofs
import PuttyNd.Share.Proofs.CleanupProofs
import PuttyNd.Share.Proofs.DisconnectProofs
import PuttyNd.Share.Proofs.GlobreqProofs
import PuttyNd.Lib.LinkedLists
import PuttyNd.Lib.Memory
import PuttyNd.Sftp.Xfer
import PuttyNd.Sftp.Proofs.ListProofs
import PuttyNd.Sftp.Proofs.LedgerProofs
import PuttyNd.Sftp.Proofs.DownloadProofs
import PuttyNd.Psftp.Bufchain
import PuttyNd.Ssh2.Channel
import PuttyNd.Ssh2.Messages
import PuttyNd.Ssh2.Proofs.FrameProofs
import PuttyNd.Ssh2.Proofs.StepProofs
import PuttyNd.Ssh2.Proofs.WindowProofs
import PuttyNd.Ssh2.Proofs.CloseProofs
import PuttyNd.Ssh2.Proofs.ThrottleProofs
import PuttyNd.Ssh2.Proofs.ConnectionProofs
import PuttyNd.Transport.Kexinit
import PuttyNd.Transport.Proofs.KexinitProofs
import PuttyNd.Transport.Limits
import PuttyNd.Transport.Ssh2Transport
import PuttyNd.Transport.Proofs.LimitProofs
import PuttyNd.Transport.Proofs.FrameProofs
import PuttyNd.Transport.Proofs.HostKeyProofs
import PuttyNd.Transport.Proofs.OrderProofs
import PuttyNd.Transport.Ssh2Bpp
import PuttyNd.Transport.Proofs.CompressionProofs
import PuttyNd.Tree.Proofs.SearchProofs
import PuttyNd.Terminal.Termline
import PuttyNd.Terminal.Proofs.CellProofs
import PuttyNd.Terminal.Resize
import PuttyNd.Terminal.Proofs.ResizeProofs
import PuttyNd.Zmodem.Proofs.FrameProofs
import PuttyNd.Lib.Transducer
import PuttyNd.Telnet.Telnet
import PuttyNd.Telnet.Stream
import PuttyNd.Telnet.Proofs.StreamProofs
import PuttyNd.Telnet.Proofs.TelnetProofs
import PuttyNd.X11.Auth
import PuttyNd.Lib.ReplayWindow
import PuttyNd.X11.Proofs.AuthProofs
import PuttyNd.Portfwd.Socks
import PuttyNd.Psftp.Proofs.MarshalProofs
import PuttyNd.Portfwd.Proofs.SocksProofs
import PuttyNd.X11.Connection
import PuttyNd.X11.Proofs.ConnectionProofs
import PuttyNd.Share.Server
import PuttyNd.Share.Proofs.ListenProofs
import PuttyNd.Adb.Fifo
import PuttyNd.Adb.Proofs.FifoProofs
import PuttyNd.Ssh2.Proofs.SendProofs
import PuttyNd.Ssh.Ttymodes
import PuttyNd.Ssh.Proofs.TtymodesProofs
import PuttyNd.Lib.Search
import PuttyNd.Tree.Search234
import PuttyNd.Tree.Proofs.Search234Proofs
import PuttyNd.Sftp.RequestTree
import PuttyNd.Sftp.Proofs.RequestTreeProofs
import PuttyNd.Lib.Ladder
import PuttyNd.Ecc.Curves
import PuttyNd.Ecc.Proofs.WeierstrassProofs
import PuttyNd.Ecc.Proofs.ExponentProofs
import PuttyNd.Ecc.Decompress
import PuttyNd.Mpint.Proofs.ModularProofs
import PuttyNd.Ecc.Proofs.DecompressProofs
import PuttyNd.Lib.Edwards
import PuttyNd.Ecc.Proofs.MultipleProofs
import PuttyNd.Ecc.Proofs.MontgomeryProofs
import PuttyNd.Telnet.Proofs.NegotiationProofs
import PuttyNd.Lib.Marks
import PuttyNd.Telnet.Subneg
import PuttyNd.Telnet.Proofs.SubnegProofs
import PuttyNd.Lib.Levels
import PuttyNd.Bidi.Minibidi
import PuttyNd.Bidi.Proofs.MinibidiProofs
import PuttyNd.Terminal.Utf8
import PuttyNd.Terminal.Proofs.Utf8Proofs
import PuttyNd.Terminal.Paste
import PuttyNd.Terminal.Proofs.PasteProofs
import PuttyNd.Storage.Ssetting
import PuttyNd.Storage.Proofs.SsettingProofs
import PuttyNd.Settings.Maps
import PuttyNd.Settings.Proofs.MapsProofs
import PuttyNd.Settings.Prefs
import PuttyNd.Settings.Proofs.PrefsProofs
import PuttyNd.Psftp.Stripctrl
import PuttyNd.Psftp.Proofs.StripctrlProofs
import PuttyNd.Storage.Munge
import PuttyNd.Storage.Proofs.MungeProofs
import PuttyNd.Settings.Sesslist
import PuttyNd.Settings.Proofs.SesslistProofs
import PuttyNd.Lib.Fields
import PuttyNd.Psftp.Proxy
import PuttyNd.Psftp.Proofs.ProxyProofs
import PuttyNd.Rsa.Padding
import PuttyNd.Rsa.Proofs.PaddingProofs
import PuttyNd.Lib.Feistel
import PuttyNd.Storage.Des
import PuttyNd.Storage.Proofs.DesProofs
import PuttyNd.Lib.Numerals
import PuttyNd.Storage.OldHostKeys
import PuttyNd.Storage.Proofs.OldHostKeysProofs
import PuttyNd.Lib.LineDisplay
import PuttyNd.Terminal.Ldisc
import PuttyNd.Terminal.Proofs.LdiscProofs
import PuttyNd.Lib.Base64
import PuttyNd.Psftp.Sshpubk
import PuttyNd.Psftp.Proofs.SshpubkProofs
import PuttyNd.Lib.Horner
import PuttyNd.Lib.PrimePowers
import PuttyNd.Mpint.Proofs.RecipProofs
import PuttyNd.Rsa.Sshrsa
import PuttyNd.Rsa.Proofs.SshrsaProofs
import PuttyNd.Rsa.Proofs.KeyBlobProofs
import PuttyNd.Rsa.Proofs.SignatureProofs
import PuttyNd.Ssh2.Proofs.FlowProofs
import PuttyNd.Ssh2.Proofs.LedgerProofs
import PuttyNd.Ssh2.Proofs.RunProofs
